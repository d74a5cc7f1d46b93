import AccountGroups.Text.CaseTable

/-!
# Lowercase text

The full lowercase mapping of Unicode. A character is mapped by itself, with one exception: `Σ` is
`ς` at the end of a word and `σ` elsewhere. The end of a word is told by the nearest characters on
both sides that the context rule does not look through: cased on the left, not cased on the right.
-/

namespace AccountGroups.Text

def CaseRun.covers (r : CaseRun) (n : Nat) : Bool :=
  r.first ≤ n && n ≤ r.last && (n - r.first) % r.step == 0

/-- The lowercase form of a character by itself; only that of `İ` has two characters. -/
def lowerChar (c : Char) : List Char :=
  if c.toNat < 0x80 then [c.toLower]
  else if c = 'İ' then ['i', '\u0307']
  else match caseRuns.find? (·.covers c.toNat) with
    | some r => [Char.ofNat (c.toNat + r.shift).toNat]
    | none => [c]

def meetsCased (cs : List Char) : Bool :=
  match cs.dropWhile (inSpans ignorableSpans) with
  | c :: _ => inSpans casedSpans c
  | [] => false

/-- `before` holds the characters on the left, the nearest first. -/
def lowerSigma (before after : List Char) : Char :=
  if meetsCased before && !meetsCased after then 'ς' else 'σ'

def lowerFrom (before : List Char) : List Char → List Char
  | [] => []
  | c :: after =>
    (if c = 'Σ' then [lowerSigma before after] else lowerChar c) ++ lowerFrom (c :: before) after

def lowercase (s : String) : String := String.ofList (lowerFrom [] s.toList)

/-- Equality up to the case of ASCII letters. -/
def sameLetters (s t : String) : Bool := s.toList.map Char.toLower == t.toList.map Char.toLower

end AccountGroups.Text
