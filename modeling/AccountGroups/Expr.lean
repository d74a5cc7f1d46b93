import AccountGroups.Source

/-!
# Group expressions

Trees over sources of ids with intersection, union and complement, and their text. Both binary
operators have one rank and group to the left, so that only a binary operand on the right or under
a complement stands in parentheses.
-/

namespace AccountGroups

inductive Expr where
  | source (s : Source)
  | inter (left right : Expr)
  | union (left right : Expr)
  | compl (inner : Expr)
  deriving DecidableEq

namespace Expr

def isBinary : Expr → Bool
  | inter .. | union .. => true
  | _ => false

def source? : Expr → Option Source
  | source s => some s
  | _ => none

/-- The occurrences of sources from left to right. -/
def sources : Expr → List Source
  | source s => [s]
  | inter left right | union left right => left.sources ++ right.sources
  | compl inner => inner.sources

def parenthesised (whether : Bool) (text : String) : String :=
  if whether then "(" ++ text ++ ")" else text

def render : Expr → String
  | source s => s.render
  | inter left right => left.render ++ " & " ++ parenthesised right.isBinary right.render
  | union left right => left.render ++ " | " ++ parenthesised right.isBinary right.render
  | compl inner => "~" ++ parenthesised inner.isBinary inner.render

end Expr

end AccountGroups
