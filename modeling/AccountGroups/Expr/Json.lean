import AccountGroups.Expr
import AccountGroups.Json

/-!
# Expressions as JSON values

A node is an object with one member, named for the kind of node. The body of a source other than a
set of handles is a record of texts, and members that it does not need are passed over. A value has
its records as objects; where a text is read piece by piece, a record may also be the array of its
fields. Handles are brought to lowercase on reading, as they are when an expression is read.
-/

namespace AccountGroups

namespace Json

def string? : Json → Option String
  | string text => some text
  | _ => none

def strings? : List Json → Option (List String)
  | [] => some []
  | .string text :: items => (strings? items).map (text :: ·)
  | _ => none

/-- The texts of the members with the given names. -/
def members? (j : Json) : List String → Option (List String)
  | [] => some []
  | name :: names =>
    match (j.member? name).bind string? with
    | some text => (members? j names).map (text :: ·)
    | none => none

/-- The texts of a record's fields, in their order. -/
def fields? (arrays : Bool) (names : List String) : Json → Option (List String)
  | array items => if arrays && items.length == names.length then strings? items else none
  | j => j.members? names

end Json

namespace Source

def toJson : Source → Json
  | followers handle => .object [("FollowersOf", .object [("handle", .string handle)])]
  | following handle => .object [("FollowingOf", .object [("handle", .string handle)])]
  | members owner list =>
    .object [("ListMembers", .object [("handle", .string owner), ("list", .string list)])]
  | handles set => .object [("HandleSet", .strings set.toList)]

/-- A source of the given kind with the given body. -/
def ofBody? (arrays : Bool) (kind : String) (body : Json) : Option Source :=
  if kind = "FollowersOf" then
    match body.fields? arrays ["handle"] with
    | some [handle] => some (.followersOf handle)
    | _ => none
  else if kind = "FollowingOf" then
    match body.fields? arrays ["handle"] with
    | some [handle] => some (.followingOf handle)
    | _ => none
  else if kind = "ListMembers" then
    match body.fields? arrays ["handle", "list"] with
    | some [owner, list] => some (.membersOf owner list)
    | _ => none
  else if kind = "HandleSet" then
    match body with
    | .array items => (Json.strings? items).map .ofHandles
    | _ => none
  else none

end Source

namespace Expr

def toJson : Expr → Json
  | source s => s.toJson
  | inter left right => .object [("Intersection", .array [left.toJson, right.toJson])]
  | union left right => .object [("Union", .array [left.toJson, right.toJson])]
  | compl inner => .object [("Complement", inner.toJson)]

/-- With `arrays` a record may also be the array of its fields. -/
def decode? (arrays : Bool) : Json → Option Expr
  | .object [("Intersection", .array [left, right])] =>
    match decode? arrays left, decode? arrays right with
    | some l, some r => some (.inter l r)
    | _, _ => none
  | .object [("Union", .array [left, right])] =>
    match decode? arrays left, decode? arrays right with
    | some l, some r => some (.union l r)
    | _, _ => none
  | .object [("Complement", inner)] => (decode? arrays inner).map .compl
  | .object [(kind, body)] => (Source.ofBody? arrays kind body).map .source
  | _ => none

def ofJson? (j : Json) : Option Expr := decode? false j

end Expr

end AccountGroups
