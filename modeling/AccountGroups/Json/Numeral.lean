import AccountGroups.Text.Basic

/-!
# Numerals of JSON

The parts of a numeral, and the range that it has to keep to. A numeral is taken for the number that
its leading digits denote, times a power of ten. Both factors are rounded to double precision before
they are multiplied, and the numeral is out of range when the product is infinite in double
precision.
-/

namespace AccountGroups

namespace Json

structure Numeral where
  negative : Bool
  whole : List Char
  fraction : Option (List Char)
  exponent : Option (Char × List Char × List Char)

/-- The nearest number with no more than 53 significant bits; of two, the one with an even last
bit. -/
def toDouble (n : Nat) : Nat :=
  let unit := Nat.pow 2 (n.log2 - 52)
  let down := n / unit
  let twice := 2 * (n % unit)
  if twice < unit ∨ (twice = unit ∧ down % 2 = 0) then down * unit else (down + 1) * unit

theorem toDouble_of_lt {n : Nat} (h : n < Nat.pow 2 53) : toDouble n = n := by
  have hn : n.log2 - 52 = 0 := by
    by_cases hz : n = 0
    · simp [hz]
    · have := (Nat.log2_lt hz).2 h
      omega
  simp [toDouble, hn, Nat.mod_one]

/-- The least number that double precision rounds to infinity. -/
def doubleBound : Nat := Nat.pow 2 1024 - Nat.pow 2 970

/-- The number that follows from writing digits behind `n`, as many as it takes below `2 ^ 64`, and
the digits that are left over. -/
def withDigits (n : Nat) : List Char → Nat × List Char
  | [] => (n, [])
  | d :: ds =>
    let next := 10 * n + (d.toNat - '0'.toNat)
    if next < UInt64.size then withDigits next ds else (n, d :: ds)

theorem le_ofDigitChars (n : Nat) (ds : List Char) : n ≤ Nat.ofDigitChars 10 ds n := by
  induction ds generalizing n with
  | nil => simp
  | cons d ds ih =>
    rw [Nat.ofDigitChars_cons]
    have := ih (10 * n + (d.toNat - '0'.toNat))
    omega

/-- Digits of a number below the bound are all taken. -/
theorem withDigits_of_lt {n : Nat} {ds : List Char} (h : Nat.ofDigitChars 10 ds n < UInt64.size) :
    withDigits n ds = (Nat.ofDigitChars 10 ds n, []) := by
  induction ds generalizing n with
  | nil => rfl
  | cons d ds ih =>
    rw [Nat.ofDigitChars_cons] at h ⊢
    have := le_ofDigitChars (10 * n + (d.toNat - '0'.toNat)) ds
    rw [withDigits, if_pos (by omega), ih h]

namespace Numeral

def text (n : Numeral) : List Char :=
  (if n.negative then ['-'] else []) ++ n.whole ++
    (match n.fraction with
      | some ds => '.' :: ds
      | none => []) ++
    (match n.exponent with
      | some (e, sign, ds) => e :: sign ++ ds
      | none => [])

/-- The power of ten that is written after the mark `e`. -/
def power (n : Numeral) : Int :=
  match n.exponent with
  | some (_, ['-'], ds) => -(Text.ofDigits ds : Int)
  | some (_, _, ds) => Text.ofDigits ds
  | none => 0

/-- The leading digits and the power of ten that goes with them. Digits before the point that are
left over count as zeros, and those after the point do not count. -/
def scaled (n : Numeral) : Nat × Int :=
  let fraction := n.fraction.getD []
  let (whole, omitted) := withDigits 0 n.whole
  let (leading, ignored) := withDigits whole fraction
  (leading, n.power + omitted.length + ignored.length - fraction.length)

/-- Whether a numeral lies beyond the range of double precision. -/
def isHuge (n : Numeral) : Bool :=
  let (leading, e) := n.scaled
  leading != 0 &&
    (308 < e || (0 ≤ e && doubleBound ≤ toDouble leading * toDouble (Nat.pow 10 e.toNat)))

end Numeral

end Json

end AccountGroups
