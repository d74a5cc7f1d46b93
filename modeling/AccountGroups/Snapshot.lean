import AccountGroups.Client
import AccountGroups.KeyMap

/-!
# Graphs kept in memory

A snapshot answers the calls of a client from its tables. Requests for ids are counted, and a window
may allow only so many of them; what lies beyond it is refused whether or not there is an entry.
Looking up users is never refused. Names are compared exactly first and then up to ASCII case.
-/

namespace AccountGroups

structure RateLimit where
  limit : UInt32
  remaining : UInt32
  resetAt : Instant
  deriving DecidableEq

structure Snapshot where
  users : List User
  followers : KeyMap (List AccountId)
  following : KeyMap (List AccountId)
  lists : KeyMap (List AccountId)
  rateLimit : Option RateLimit
  requests : UInt32
  deriving DecidableEq

namespace Snapshot

def empty : Snapshot := ⟨[], .empty, .empty, .empty, none, 0⟩

def withUser (s : Snapshot) (user : User) : Snapshot := { s with users := s.users ++ [user] }

def withFollowers (s : Snapshot) (handle : String) (ids : List AccountId) : Snapshot :=
  { s with followers := s.followers.insert handle ids }

def withFollowing (s : Snapshot) (handle : String) (ids : List AccountId) : Snapshot :=
  { s with following := s.following.insert handle ids }

def listName (owner list : String) : String := owner ++ "/" ++ list

def withList (s : Snapshot) (owner list : String) (ids : List AccountId) : Snapshot :=
  { s with lists := s.lists.insert (listName owner list) ids }

def withRateLimit (s : Snapshot) (window : RateLimit) : Snapshot :=
  { s with rateLimit := some window }

/-- The error with which the next request is refused, if the window is used up. -/
def refusal? (s : Snapshot) : Option GraphError :=
  match s.rateLimit with
  | some window =>
    if window.remaining ≤ s.requests then some (.rateLimited window.limit 0 window.resetAt)
    else none
  | none => none

/-- A name that is stored as it is asked for goes first. Among several that differ from it in the
case of ASCII letters alone no choice is promised, and the first one of the table is taken. -/
def lookup (table : KeyMap (List AccountId)) (key : String) : Except GraphError (List AccountId) :=
  match table.get? key with
  | some ids => .ok ids
  | none =>
    match table.entries.find? fun e => Text.sameLetters e.1 key with
    | some e => .ok e.2
    | none => .error (.notFound key)

/-- Every request is counted, also one that is refused. -/
def request (table : Snapshot → KeyMap (List AccountId)) (key : String) :
    Call Snapshot (List AccountId) := fun s =>
  let next := { s with requests := s.requests + 1 }
  match s.refusal? with
  | some e => (.error e, next)
  | none => (lookup (table s) key, next)

/-- The first user with a handle up to ASCII case. -/
def userNamed (s : Snapshot) (handle : String) : Option User :=
  s.users.find? fun u => Text.sameLetters u.handle handle

/-- The first user with an id. -/
def userWithId (s : Snapshot) (id : AccountId) : Option User := s.users.find? fun u => u.id == id

def client : Client Snapshot where
  followerIds handle := request followers handle
  friendIds handle := request following handle
  listMembers owner list := request lists (listName owner list)
  usersByHandle handles s := (.ok (handles.filterMap s.userNamed), s)
  usersById ids s := (.ok (ids.filterMap s.userWithId), s)

end Snapshot

end AccountGroups
