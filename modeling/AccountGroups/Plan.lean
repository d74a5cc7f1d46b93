import AccountGroups.Expr
import AccountGroups.Text.Basic

/-!
# Fetch plans

What would be fetched for an expression: one fetch for each key, in the order of first use, with the
kind of call that it makes and the number of places that use it.
-/

namespace AccountGroups

inductive Operation where
  | followerIds
  | friendIds
  | listMembers
  | usersByHandle
  | none
  deriving DecidableEq

def Operation.name : Operation → String
  | followerIds => "follower_ids"
  | friendIds => "friend_ids"
  | listMembers => "list_members"
  | usersByHandle => "users_by_handle"
  | none => "none"

/-- No call is made for an empty set of handles. -/
def Source.operation : Source → Operation
  | followers _ => .followerIds
  | following _ => .friendIds
  | members .. => .listMembers
  | handles set => if set.isEmpty then .none else .usersByHandle

structure PlannedFetch where
  key : String
  operation : Operation
  occurrences : Nat
  deriving DecidableEq

structure Plan where
  expression : String
  fetches : List PlannedFetch
  references : Nat
  deriving DecidableEq

namespace Plan

/-- Counts one more place that uses a source. -/
def note (s : Source) : List PlannedFetch → List PlannedFetch
  | [] => [⟨s.key, s.operation, 1⟩]
  | f :: fs =>
    if f.key == s.key then { f with occurrences := f.occurrences + 1 } :: fs else f :: note s fs

def ofExpr (e : Expr) : Plan :=
  ⟨e.render, e.sources.foldl (fun fs s => note s fs) [], e.sources.length⟩

/-- The number of places that share the fetch of an earlier one. -/
def shared (p : Plan) : Nat := p.references - p.fetches.length

def fetchLine (number : Nat) (f : PlannedFetch) : String :=
  "  " ++ Text.numeral number ++ ". " ++ f.operation.name ++ " " ++ f.key ++
    (if 1 < f.occurrences then " (x" ++ Text.numeral f.occurrences ++ ")" else "") ++ "\n"

def fetchLines : Nat → List PlannedFetch → String
  | _, [] => ""
  | number, f :: fs => fetchLine number f ++ fetchLines (number + 1) fs

def render (p : Plan) : String :=
  "Fetch plan for: " ++ p.expression ++ "\n" ++
    Text.numeral p.fetches.length ++ " fetches for " ++ Text.numeral p.references ++
    " references (" ++ Text.numeral p.shared ++ " shared)\n" ++ fetchLines 1 p.fetches

end Plan

end AccountGroups
