import AccountGroups.Client

/-!
# Reports

A group as lines of text, one for each listed account. An account is called by its handle or, when
none is known, by its id. Lines are in the order of their lowercase forms, and those that agree in
them in the order of the names themselves.
-/

namespace AccountGroups

structure Report where
  lines : List String
  diagnostic : Option String
  deriving DecidableEq

namespace Report

def nobody : String := "(nobody)"

def everybody : String := "(everybody)"

/-- The handle of the last user with the id, or else the id as a numeral. -/
def name (users : List User) (id : AccountId) : String :=
  match users.reverse.find? fun u => u.id == id with
  | some u => u.handle
  | none => Text.numeral id.toNat

def lowerFirst (a b : String × String) : Bool :=
  decide (a.1 < b.1) || (a.1 == b.1 && !decide (b.2 < a.2))

def arranged (names : List String) : List String :=
  ((names.map fun n => (Text.lowercase n, n)).mergeSort lowerFirst).map (·.2)

def ofGroup (g : Group) (users : List User) : Report :=
  if g.listed.isEmpty then ⟨[], some (if g.isComplement then everybody else nobody)⟩
  else
    let lead := if g.isComplement then "NOT " else ""
    ⟨(arranged (g.listed.toList.map (name users))).map (lead ++ ·), none⟩

end Report

end AccountGroups
