import AccountGroups.Json

/-!
# JSON texts with flaws

A draft is a JSON text as far as it can be read. Where the text breaks off, or a leaf cannot be
read, the draft holds a defect. Drafts are read as records, lists and maps of a wanted shape, in the
order of the text, so that the first fault in that order is reported. A part that no record asks for
is skipped, and skipping is more lenient than reading.
-/

namespace AccountGroups

namespace Json

/-- The text is no JSON, or ends too early, or is JSON of another shape than wanted. -/
inductive Fault where
  | malformed
  | truncated
  | mismatched
  deriving DecidableEq

/-- What reading a place reports, and what skipping it reports, if anything. -/
structure Defect where
  reading : Fault
  skipping : Option Fault
  deriving DecidableEq

def Defect.fatal (fault : Fault) : Defect := ⟨fault, some fault⟩

/-- A list that lacks its closing bracket ends in a defect. A key that is no text is absent. -/
inductive Draft where
  | null
  | bool (value : Bool)
  | natural (n : Nat)
  | numeral (text : List Char)
  | string (text : String)
  | array (items : List Draft) (ending : Option Defect)
  | object (members : List (Option String × Draft)) (ending : Option Defect)
  | defect (d : Defect)

namespace Draft

def skipEnding (ending : Option Defect) : Option Fault := ending.bind (·.skipping)

mutual

/-- The first fault that skipping a draft meets. -/
def skip : Draft → Option Fault
  | defect d => d.skipping
  | array items ending => (skipItems items).or (skipEnding ending)
  | object members ending => (skipMembers members).or (skipEnding ending)
  | _ => none

def skipItems : List Draft → Option Fault
  | [] => none
  | item :: items => item.skip.or (skipItems items)

def skipMembers : List (Option String × Draft) → Option Fault
  | [] => none
  | (_, value) :: members => value.skip.or (skipMembers members)

end

/-- What a reader reports that wants another kind of value. -/
def fault : Draft → Fault
  | defect d => d.reading
  | _ => .mismatched

def refuse {α : Type} (d : Draft) : Except Fault α := .error d.fault

def closed {α : Type} (value : α) : Option Defect → Except Fault α
  | none => .ok value
  | some d => .error d.reading

def natural? (bound : Nat) : Draft → Except Fault Nat
  | natural n => if n < bound then .ok n else .error .mismatched
  | d => d.refuse

def string? : Draft → Except Fault String
  | string text => .ok text
  | d => d.refuse

def readItems {α : Type} (read : Draft → Except Fault α) : List Draft → Except Fault (List α)
  | [] => .ok []
  | item :: items =>
    match read item with
    | .error f => .error f
    | .ok a => (readItems read items).map (a :: ·)

def list? {α : Type} (read : Draft → Except Fault α) : Draft → Except Fault (List α)
  | array items ending =>
    match readItems read items with
    | .error f => .error f
    | .ok as => closed as ending
  | d => d.refuse

def readMembers {α : Type} (read : Draft → Except Fault α) :
    List (Option String × Draft) → Except Fault (List (String × α))
  | [] => .ok []
  | (none, _) :: _ => .error .malformed
  | (some key, value) :: members =>
    match read value with
    | .error f => .error f
    | .ok a => (readMembers read members).map ((key, a) :: ·)

def map? {α : Type} (read : Draft → Except Fault α) : Draft → Except Fault (List (String × α))
  | object members ending =>
    match readMembers read members with
    | .error f => .error f
    | .ok as => closed as ending
  | d => d.refuse

/-- A field of a record: its name, and how its value is read into the record. -/
structure Field (σ : Type) where
  name : String
  read : Draft → σ → Except Fault σ

/-- The items of an array fill the fields in order; there may be fewer items than fields. -/
def fillItems {σ : Type} (ending : Option Defect) :
    List (Field σ) → List Draft → σ → Except Fault σ
  | [], [], record => closed record ending
  | [], _ :: _, _ => .error .malformed
  | _ :: _, [], record => closed record ending
  | field :: fields, item :: items, record =>
    match field.read item record with
    | .error f => .error f
    | .ok next => fillItems ending fields items next

/-- The members of an object fill the fields that they name, each at most once; members with other
names are skipped. -/
def fillMembers {σ : Type} (fields : List (Field σ)) (ending : Option Defect) :
    List String → List (Option String × Draft) → σ → Except Fault σ
  | _, [], record => closed record ending
  | _, (none, _) :: _, _ => .error .malformed
  | seen, (some key, value) :: members, record =>
    match fields.find? (·.name == key) with
    | none =>
      match value.skip with
      | some f => .error f
      | none => fillMembers fields ending seen members record
    | some field =>
      if seen.contains key then .error .mismatched
      else match field.read value record with
        | .error f => .error f
        | .ok next => fillMembers fields ending (key :: seen) members next

/-- A record, written as an object or as the array of its fields. -/
def record? {σ : Type} (fields : List (Field σ)) (start : σ) : Draft → Except Fault σ
  | array items ending => fillItems ending fields items start
  | object members ending => fillMembers fields ending [] members start
  | d => d.refuse

def option? {α : Type} (read : Draft → Except Fault α) : Draft → Except Fault (Option α)
  | null => .ok none
  | d => (read d).map some

end Draft

mutual

/-- A value seen as a draft. -/
def draft : Json → Draft
  | null => .null
  | bool b => .bool b
  | natural n => .natural n
  | numeral text => .numeral text
  | string text => .string text
  | array items => .array (draftItems items) none
  | object members => .object (draftMembers members) none

def draftItems : List Json → List Draft
  | [] => []
  | item :: items => item.draft :: draftItems items

def draftMembers : List (String × Json) → List (Option String × Draft)
  | [] => []
  | (key, value) :: members => (some key, value.draft) :: draftMembers members

end

end Json

end AccountGroups
