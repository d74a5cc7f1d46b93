/-!
# Octets as text

A list of octets is read as characters in UTF-8. An octet that begins no character stands for
itself, and reading goes on with the next one. So octets are text exactly when no octet is left
over, and ASCII characters are found wherever they stand.
-/

namespace AccountGroups.Text

/-- What is read at one place: a character, or an octet that belongs to none. -/
inductive Glyph where
  | char (c : Char)
  | stray (octet : UInt8)
  deriving DecidableEq

/-- The low six bits of an octet that goes on a character. -/
def tailBits (b : UInt8) : Nat := b.toNat - 0x80

def isTail (b : UInt8) : Bool := 0x80 ≤ b && b ≤ 0xBF

/-- The octets that may follow the first octet of a character of three octets. -/
def isSecondOfThree (a b : UInt8) : Bool :=
  isTail b && (a != 0xE0 || 0xA0 ≤ b) && (a != 0xED || b ≤ 0x9F)

def isSecondOfFour (a b : UInt8) : Bool :=
  isTail b && (a != 0xF0 || 0x90 ≤ b) && (a != 0xF4 || b ≤ 0x8F)

/-- The character at the head of the octets, and how many octets after the first it takes. -/
def headChar? : List UInt8 → Option (Char × Nat)
  | [] => none
  | a :: rest =>
    if a < 0x80 then some (Char.ofNat a.toNat, 0)
    else if 0xC2 ≤ a && a ≤ 0xDF then
      match rest with
      | b :: _ =>
        if isTail b then some (Char.ofNat ((a.toNat - 0xC0) * 64 + tailBits b), 1) else none
      | _ => none
    else if 0xE0 ≤ a && a ≤ 0xEF then
      match rest with
      | b :: c :: _ =>
        if isSecondOfThree a b && isTail c then
          some (Char.ofNat (((a.toNat - 0xE0) * 64 + tailBits b) * 64 + tailBits c), 2)
        else none
      | _ => none
    else if 0xF0 ≤ a && a ≤ 0xF4 then
      match rest with
      | b :: c :: d :: _ =>
        if isSecondOfFour a b && isTail c && isTail d then
          some (Char.ofNat
            ((((a.toNat - 0xF0) * 64 + tailBits b) * 64 + tailBits c) * 64 + tailBits d), 3)
        else none
      | _ => none
    else none

/-- `skip` counts the octets that the character before has taken. -/
def glyphsFrom : Nat → List UInt8 → List Glyph
  | _, [] => []
  | skip + 1, _ :: rest => glyphsFrom skip rest
  | 0, a :: rest =>
    match headChar? (a :: rest) with
    | some (c, n) => .char c :: glyphsFrom n rest
    | none => .stray a :: glyphsFrom 0 rest

def glyphs (octets : List UInt8) : List Glyph := glyphsFrom 0 octets

/-- The characters of a text, when no octet is left over. -/
def chars? : List Glyph → Option (List Char)
  | [] => some []
  | .char c :: rest => (chars? rest).map (c :: ·)
  | .stray _ :: _ => none

/-- The number of octets that a glyph takes. -/
def Glyph.size : Glyph → Nat
  | .char c => c.utf8Size
  | .stray _ => 1

end AccountGroups.Text
