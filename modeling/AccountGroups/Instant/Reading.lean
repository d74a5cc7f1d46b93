import AccountGroups.Instant
import AccountGroups.Text.Basic

/-!
# Reading instants

Texts in the format of RFC 3339, read with some freedom: numbers may lack leading zeros, blanks may
stand between the parts, a signed year may have any number of digits, and the offset may be written
`UTC` or without its colon. Digits of the fraction after the ninth are dropped.
-/

namespace AccountGroups

namespace Instant

open Text

/-- A reader takes a part off the front of a text. -/
abbrev Reader (α : Type) := List Char → Option (α × List Char)

def someDigits (cs : List Char) : Option (List Char × List Char) :=
  match cs.takeWhile Char.isDigit with
  | [] => none
  | ds => some (ds, cs.dropWhile Char.isDigit)

/-- A number of at most `width` digits. -/
def number (width : Nat) : Reader Nat := fun cs =>
  match (cs.take width).takeWhile Char.isDigit with
  | [] => none
  | ds => some (ofDigits ds, cs.drop ds.length)

/-- A number of at most two digits within bounds, after blanks. -/
def bounded (least most : Nat) : Reader Nat := fun cs =>
  match number 2 (trimLeft cs) with
  | some (n, rest) => if least ≤ n ∧ n ≤ most then some (n, rest) else none
  | none => none

/-- A mark, after blanks. -/
def mark (c : Char) : List Char → Option (List Char) := fun cs =>
  match trimLeft cs with
  | d :: rest => if d = c then some rest else none
  | [] => none

def yearNumber : Reader Int := fun cs =>
  match trimLeft cs with
  | '-' :: rest => (someDigits rest).map fun r => (-(ofDigits r.1 : Int), r.2)
  | '+' :: rest => (someDigits rest).map fun r => ((ofDigits r.1 : Int), r.2)
  | cs => (number 4 cs).map fun r => ((r.1 : Int), r.2)

/-- The fraction of a second in nanoseconds. -/
def fraction : Reader Nat := fun cs =>
  match cs with
  | '.' :: rest =>
    (someDigits rest).map fun r =>
      let ds := r.1.take 9
      (ofDigits ds * Nat.pow 10 (9 - ds.length), r.2)
  | cs => some (0, cs)

def separator : List Char → Option (List Char)
  | c :: rest => if c = 't' ∨ c = 'T' ∨ c = ' ' then some rest else none
  | [] => none

/-- Hours and minutes of an offset in seconds; colons and blanks may stand between them. -/
def offsetTime : Reader Nat := fun cs =>
  match cs with
  | h :: h' :: rest =>
    if h.isDigit ∧ h'.isDigit then
      match rest.dropWhile fun c => c == ':' || isBlank c with
      | m :: m' :: rest =>
        if m.isDigit ∧ m'.isDigit ∧ m ≤ '5' then
          some (ofDigits [h, h'] * 3600 + ofDigits [m, m'] * 60, rest)
        else none
      | _ => none
    else none
  | _ => none

/-- The distance of local time from universal time in seconds. -/
def offset : Reader Int := fun cs =>
  match cs with
  | [] => none
  | c :: rest =>
    if (cs.take 3).map Char.toLower = ['u', 't', 'c'] then some (0, cs.drop 3)
    else if c = 'Z' ∨ c = 'z' then some (0, rest)
    else if c = '+' then (offsetTime rest).map fun r => ((r.1 : Int), r.2)
    else if c = '-' ∨ c = '\u2212' then (offsetTime rest).map fun r => (-(r.1 : Int), r.2)
    else none

def isYear (year : Int) : Bool := -262143 ≤ year && year ≤ 262142

/-- The instant at which a clock with the given offset shows the time of `i`. -/
def minusOffset (i : Instant) (offset : Int) : Instant :=
  let second := (i.second : Int) - offset
  if second < 0 then { previousDay i with second := (second + 86400).toNat }
  else if 86400 ≤ second then { nextDay i with second := (second - 86400).toNat }
  else { i with second := second.toNat }

/-- The second of the day and the nanoseconds; second 60 is a leap second. -/
def timeOf (hour minute second nano : Nat) : Nat × Nat :=
  if second = 60 then (hour * 3600 + minute * 60 + 59, 1000000000 + nano)
  else (hour * 3600 + minute * 60 + second, nano)

def date (cs : List Char) : Option ((Int × Nat × Nat) × List Char) := do
  let (year, cs) ← yearNumber cs
  let cs ← mark '-' cs
  let (month, cs) ← bounded 1 12 cs
  let cs ← mark '-' cs
  let (day, cs) ← bounded 1 31 cs
  some ((year, month, day), cs)

def time (cs : List Char) : Option ((Nat × Nat) × List Char) := do
  let (hour, cs) ← bounded 0 23 cs
  let cs ← mark ':' cs
  let (minute, cs) ← bounded 0 59 cs
  let cs ← mark ':' cs
  let (second, cs) ← bounded 0 60 cs
  let (nano, cs) ← fraction cs
  some (timeOf hour minute second nano, cs)

def ofText? (text : String) : Option Instant := do
  let ((year, month, day), cs) ← date text.toList
  let cs ← separator cs
  let ((second, nano), cs) ← time cs
  let (distance, cs) ← offset (trimLeft cs)
  if trimLeft cs = [] ∧ isYear year ∧ day ≤ daysIn year month ∧ distance.natAbs < 86400 then
    let i := minusOffset ⟨year, month, day, second, nano⟩ distance
    if isYear i.year then some i else none
  else none

end Instant

end AccountGroups
