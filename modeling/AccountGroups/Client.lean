import AccountGroups.Group
import AccountGroups.Instant
import AccountGroups.Source

/-!
# Clients of a social graph

A client answers five kinds of calls. Its answers may depend on the calls before, so that each call
takes a state and gives the next one.
-/

namespace AccountGroups

structure User where
  id : AccountId
  handle : String
  deriving DecidableEq

inductive GraphError where
  | rateLimited (limit remaining : UInt32) (resetAt : Instant)
  | notFound (what : String)
  | service (text : String)
  deriving DecidableEq

def GraphError.message : GraphError → String
  | rateLimited limit remaining resetAt =>
    let left := Text.numeral remaining.toNat
    let all := Text.numeral limit.toNat
    "rate limited: " ++ left ++ " of " ++ all ++ " requests remaining, resets at " ++
      resetAt.display
  | notFound what => "not found: " ++ what
  | service text => "social graph error: " ++ text

abbrev Call (σ α : Type) := σ → Except GraphError α × σ

structure Client (σ : Type) where
  followerIds : String → Call σ (List AccountId)
  friendIds : String → Call σ (List AccountId)
  listMembers : String → String → Call σ (List AccountId)
  usersByHandle : List String → Call σ (List User)
  usersById : List AccountId → Call σ (List User)

namespace Client

variable {σ : Type}

/-- The ids of a source. No call is made for an empty set of handles. -/
def fetch (client : Client σ) : Source → Call σ (List AccountId)
  | .followers handle => client.followerIds handle
  | .following handle => client.friendIds handle
  | .members owner list => client.listMembers owner list
  | .handles set => fun s =>
    if set.isEmpty then (.ok [], s)
    else
      let (answer, next) := client.usersByHandle set.toList s
      (answer.map fun users => users.map User.id, next)

end Client

end AccountGroups
