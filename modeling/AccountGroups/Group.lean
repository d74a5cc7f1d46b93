import AccountGroups.Ascending
import AccountGroups.Json

/-!
# Groups of accounts

A group is a finite set of accounts or all accounts but a finite set. Both kinds together are closed
under intersection, union and complement, and the kind of a result depends on the kinds of its
operands alone. As JSON a group is an object with one member, named for its kind, that holds the
listed ids.
-/

namespace AccountGroups

abbrev AccountId := UInt64

def idJson (id : AccountId) : Json := .natural id.toNat

def idsJson (ids : List AccountId) : Json := .array (ids.map idJson)

def ids? : List Json → Option (List AccountId)
  | [] => some []
  | .natural n :: items =>
    if n < UInt64.size then (ids? items).map (UInt64.ofNat n :: ·) else none
  | _ => none

inductive Group where
  | only (ids : Ascending AccountId)
  | allBut (ids : Ascending AccountId)
  deriving DecidableEq

namespace Group

def nobody : Group := .only .empty

def everybody : Group := .allBut .empty

def ofIds (ids : List AccountId) : Group := .only (.ofList ids)

def excluding (ids : List AccountId) : Group := .allBut (.ofList ids)

def isComplement : Group → Bool
  | .only _ => false
  | .allBut _ => true

/-- The ids on record: the members, or the accounts that are left out. -/
def listed : Group → Ascending AccountId
  | .only ids => ids
  | .allBut ids => ids

def contains (id : AccountId) : Group → Bool
  | .only ids => id ∈ ids
  | .allBut ids => id ∉ ids

def isNobody (g : Group) : Bool := !g.isComplement && g.listed.isEmpty

def isEverybody (g : Group) : Bool := g.isComplement && g.listed.isEmpty

def inter : Group → Group → Group
  | .only a, .only b => .only (a.inter b)
  | .only a, .allBut b => .only (a.diff b)
  | .allBut a, .only b => .only (b.diff a)
  | .allBut a, .allBut b => .allBut (a.union b)

def union : Group → Group → Group
  | .only a, .only b => .only (a.union b)
  | .only a, .allBut b => .allBut (b.diff a)
  | .allBut a, .only b => .allBut (a.diff b)
  | .allBut a, .allBut b => .allBut (a.inter b)

def compl : Group → Group
  | .only a => .allBut a
  | .allBut a => .only a

instance : Inter Group := ⟨inter⟩

instance : Union Group := ⟨union⟩

instance : Complement Group := ⟨compl⟩

@[simp] theorem contains_inter {id : AccountId} {a b : Group} :
    (a.inter b).contains id = (a.contains id && b.contains id) := by
  cases a <;> cases b <;> simp [inter, contains, Bool.and_comm]

@[simp] theorem contains_union {id : AccountId} {a b : Group} :
    (a.union b).contains id = (a.contains id || b.contains id) := by
  cases a <;> cases b <;> simp [union, contains, Bool.or_comm]

@[simp] theorem contains_compl {id : AccountId} {a : Group} :
    a.compl.contains id = !a.contains id := by
  cases a <;> simp [compl, contains]

@[simp] theorem isComplement_inter {a b : Group} :
    (a.inter b).isComplement = (a.isComplement && b.isComplement) := by
  cases a <;> cases b <;> rfl

@[simp] theorem isComplement_union {a b : Group} :
    (a.union b).isComplement = (a.isComplement || b.isComplement) := by
  cases a <;> cases b <;> rfl

@[simp] theorem isComplement_compl {a : Group} : a.compl.isComplement = !a.isComplement := by
  cases a <;> rfl

def toJson : Group → Json
  | only ids => .object [("Finite", idsJson ids.toList)]
  | allBut ids => .object [("Complement", idsJson ids.toList)]

def ofJson? : Json → Option Group
  | .object [("Finite", .array items)] => (ids? items).map ofIds
  | .object [("Complement", .array items)] => (ids? items).map excluding
  | _ => none

end Group

end AccountGroups
