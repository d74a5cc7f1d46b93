import AccountGroups.Expr
import AccountGroups.Expr.Error
import AccountGroups.Group
import AccountGroups.KeyMap

/-!
# The group that an expression denotes

Ids that were fetched are filed under the keys of their sources, and an expression is evaluated
against them. The leftmost source without an entry is reported.
-/

namespace AccountGroups

abbrev Fetched := KeyMap (List AccountId)

namespace Expr

def evaluate (fetched : Fetched) : Expr → Except ExprError Group
  | source s =>
    match fetched.get? s.key with
    | some ids => .ok (.ofIds ids)
    | none => .error (.notFetched s.key)
  | inter left right =>
    match left.evaluate fetched with
    | .error e => .error e
    | .ok a =>
      match right.evaluate fetched with
      | .error e => .error e
      | .ok b => .ok (a ∩ b)
  | union left right =>
    match left.evaluate fetched with
    | .error e => .error e
    | .ok a =>
      match right.evaluate fetched with
      | .error e => .error e
      | .ok b => .ok (a ∪ b)
  | compl inner => (inner.evaluate fetched).map Group.compl

end Expr

end AccountGroups
