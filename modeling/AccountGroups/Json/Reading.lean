import AccountGroups.Json.Draft
import AccountGroups.Json.Numeral
import AccountGroups.Text.Utf8

/-!
# Reading JSON texts

A draft is read from characters and stray octets. Every reader gives what it has read and the rest
of the text, or no rest where the text cannot go on. A string with a lone surrogate or a stray
octet, and a number beyond the range of double precision, cannot be read but can be skipped.
-/

namespace AccountGroups

namespace Json

open Text (Glyph)

def isSpace (c : Char) : Bool := c == ' ' || c == '\n' || c == '\t' || c == '\r'

def skipSpace : List Glyph → List Glyph
  | .char c :: rest => if isSpace c then skipSpace rest else .char c :: rest
  | gs => gs

def hexValue? (c : Char) : Option Nat :=
  if '0' ≤ c ∧ c ≤ '9' then some (c.toNat - 48)
  else if 'a' ≤ c ∧ c ≤ 'f' then some (c.toNat - 87)
  else if 'A' ≤ c ∧ c ≤ 'F' then some (c.toNat - 55)
  else none

def octets (gs : List Glyph) : Nat := gs.foldl (fun n g => n + g.size) 0

def hex4? (a b c d : Glyph) : Option Nat :=
  match a, b, c, d with
  | .char a, .char b, .char c, .char d =>
    match hexValue? a, hexValue? b, hexValue? c, hexValue? d with
    | some a, some b, some c, some d => some (((a * 16 + b) * 16 + c) * 16 + d)
    | _, _, _, _ => none
  | _, _, _, _ => none

def escaped? : Char → Option Char
  | '"' => some '"'
  | '\\' => some '\\'
  | '/' => some '/'
  | 'b' => some '\x08'
  | 'f' => some '\x0c'
  | 'n' => some '\n'
  | 'r' => some '\r'
  | 't' => some '\t'
  | _ => none

/-- A part of a string: a character, a unit of UTF-16 that was written as a number, or a stray
octet. -/
inductive Piece where
  | char (c : Char)
  | unit (n : Nat)
  | stray
  deriving DecidableEq

def withPiece (p : Piece) (r : List Piece × Except Fault (List Glyph)) :
    List Piece × Except Fault (List Glyph) := (p :: r.1, r.2)

/-- The parts of a string after its opening quote, and what follows its closing quote. A unit takes
four digits, and a text with fewer than four octets left is too short for them. -/
def pieces : List Glyph → List Piece × Except Fault (List Glyph)
  | [] => ([], .error .truncated)
  | .stray _ :: rest => withPiece .stray (pieces rest)
  | .char c :: rest =>
    if c = '"' then ([], .ok rest)
    else if c.toNat < 0x20 then ([], .error .malformed)
    else if c = '\\' then
      match rest with
      | [] => ([], .error .truncated)
      | .stray _ :: _ => ([], .error .malformed)
      | .char 'u' :: a :: b :: c :: d :: rest =>
        match hex4? a b c d with
        | some n => withPiece (.unit n) (pieces rest)
        | none => ([], .error .malformed)
      | .char 'u' :: rest => ([], .error (if octets rest < 4 then .truncated else .malformed))
      | .char c :: rest =>
        match escaped? c with
        | some e => withPiece (.char e) (pieces rest)
        | none => ([], .error .malformed)
    else withPiece (.char c) (pieces rest)

def isHighSurrogate (n : Nat) : Bool := 0xD800 ≤ n && n ≤ 0xDBFF

def isLowSurrogate (n : Nat) : Bool := 0xDC00 ≤ n && n ≤ 0xDFFF

/-- The characters that the parts of a string make up, where `cut` tells how the string breaks off.
A high surrogate has to be followed by a low one. Stray octets are noticed last. -/
def join (cut : Option Fault) : List Piece → Except Fault (List Char)
  | [] =>
    match cut with
    | some f => .error f
    | none => .ok []
  | .char c :: ps => (join cut ps).map (c :: ·)
  | .stray :: ps =>
    match join cut ps with
    | .error f => .error f
    | .ok _ => .error .malformed
  | .unit n :: ps =>
    if isLowSurrogate n then .error .malformed
    else if isHighSurrogate n then
      match ps with
      | [] => .error (cut.getD .malformed)
      | .unit m :: ps =>
        if isLowSurrogate m then
          (join cut ps).map (Char.ofNat (0x10000 + (n - 0xD800) * 0x400 + (m - 0xDC00)) :: ·)
        else .error .malformed
      | _ => .error .malformed
    else (join cut ps).map (Char.ofNat n :: ·)

/-- What a reader has read, and the rest of the text if the text can go on. -/
abbrev Step (α : Type) := α × Option (List Glyph)

/-- A string after its opening quote. -/
def quotedText (gs : List Glyph) : Step (Except Defect String) :=
  match pieces gs with
  | (ps, .ok rest) =>
    match join none ps with
    | .ok cs => (.ok (String.ofList cs), some rest)
    | .error f => (.error ⟨f, none⟩, some rest)
  | (ps, .error f) =>
    match join (some f) ps with
    | .ok _ => (.error (.fatal f), none)
    | .error g => (.error ⟨g, some f⟩, none)

def takeDigits : List Glyph → List Char × List Glyph
  | .char c :: rest =>
    if c.isDigit then (c :: (takeDigits rest).1, (takeDigits rest).2) else ([], .char c :: rest)
  | gs => ([], gs)

/-- The defect of a numeral that lacks digits before `rest`. -/
def noDigits (rest : List Glyph) : Defect :=
  if rest.isEmpty then ⟨.truncated, some .malformed⟩ else .fatal .malformed

def whole (gs : List Glyph) : Except Defect (List Char × List Glyph) :=
  match takeDigits gs with
  | ([], rest) => .error (noDigits rest)
  | ('0' :: _ :: _, _) => .error (.fatal .malformed)
  | taken => .ok taken

def fraction : List Glyph → Except Defect (Option (List Char) × List Glyph)
  | .char '.' :: rest =>
    match takeDigits rest with
    | ([], rest') => .error (noDigits rest')
    | (ds, rest') => .ok (some ds, rest')
  | gs => .ok (none, gs)

def sign : List Glyph → List Char × List Glyph
  | .char '+' :: rest => (['+'], rest)
  | .char '-' :: rest => (['-'], rest)
  | gs => ([], gs)

def exponent : List Glyph → Except Defect (Option (Char × List Char × List Char) × List Glyph)
  | .char e :: rest =>
    if e = 'e' ∨ e = 'E' then
      match takeDigits (sign rest).2 with
      | ([], rest') => .error (noDigits rest')
      | (ds, rest') => .ok (some (e, (sign rest).1, ds), rest')
    else .ok (none, .char e :: rest)
  | gs => .ok (none, gs)

def numeral? (negative : Bool) (gs : List Glyph) : Except Defect (Numeral × List Glyph) :=
  match whole gs with
  | .error d => .error d
  | .ok (ds, gs) =>
    match fraction gs with
    | .error d => .error d
    | .ok (f, gs) =>
      match exponent gs with
      | .error d => .error d
      | .ok (e, gs) => .ok (⟨negative, ds, f, e⟩, gs)

def Numeral.draft (n : Numeral) : Draft :=
  if n.isHuge then .defect ⟨.malformed, none⟩
  else match n with
    | ⟨false, ds, none, none⟩ => .natural (Text.ofDigits ds)
    | _ => .numeral n.text

def number (negative : Bool) (gs : List Glyph) : Step Draft :=
  match numeral? negative gs with
  | .error d => (.defect d, none)
  | .ok (n, rest) => (n.draft, some rest)

/-- The rest of a name such as `null` after its first letter. -/
def name (value : Draft) : List Char → List Glyph → Step Draft
  | [], gs => (value, some gs)
  | _ :: _, [] => (.defect (.fatal .truncated), none)
  | c :: cs, g :: gs =>
    if g = .char c then name value cs gs else (.defect (.fatal .malformed), none)

def fatalStep (f : Fault) : Step Draft := (.defect (.fatal f), none)

mutual

def value : Nat → List Glyph → Step Draft
  | 0, _ => fatalStep .truncated
  | fuel + 1, gs =>
    match skipSpace gs with
    | [] => fatalStep .truncated
    | .char 'n' :: rest => name .null ['u', 'l', 'l'] rest
    | .char 't' :: rest => name (.bool true) ['r', 'u', 'e'] rest
    | .char 'f' :: rest => name (.bool false) ['a', 'l', 's', 'e'] rest
    | .char '-' :: rest => number true rest
    | .char '"' :: rest =>
      match quotedText rest with
      | (.ok s, after) => (.string s, after)
      | (.error d, after) => (.defect d, after)
    | .char '[' :: rest =>
      match items fuel true rest with
      | ((is, ending), after) => (.array is ending, after)
    | .char '{' :: rest =>
      match members fuel true rest with
      | ((ms, ending), after) => (.object ms ending, after)
    | .char c :: rest =>
      if c.isDigit then number false (.char c :: rest) else fatalStep .malformed
    | .stray _ :: _ => fatalStep .malformed

/-- The items of an array; only the first one has no comma in front. -/
def items : Nat → Bool → List Glyph → Step (List Draft × Option Defect)
  | 0, _, _ => (([], some (.fatal .truncated)), none)
  | fuel + 1, first, gs =>
    match skipSpace gs with
    | [] => (([], some (.fatal .truncated)), none)
    | .char ']' :: rest => (([], none), some rest)
    | g :: rest =>
      if first then item fuel (g :: rest)
      else if g = .char ',' then
        match skipSpace rest with
        | .char ']' :: _ => (([.defect (.fatal .malformed)], none), none)
        | rest' => item fuel rest'
      else (([], some (.fatal .malformed)), none)

def item : Nat → List Glyph → Step (List Draft × Option Defect)
  | 0, _ => (([], some (.fatal .truncated)), none)
  | fuel + 1, gs =>
    match value fuel gs with
    | (d, none) => (([d], none), none)
    | (d, some rest) =>
      match items fuel false rest with
      | ((ds, ending), after) => ((d :: ds, ending), after)

def members : Nat → Bool → List Glyph → Step (List (Option String × Draft) × Option Defect)
  | 0, _, _ => (([], some (.fatal .truncated)), none)
  | fuel + 1, first, gs =>
    match skipSpace gs with
    | [] => (([], some (.fatal .truncated)), none)
    | .char '}' :: rest => (([], none), some rest)
    | g :: rest =>
      if first then member fuel (g :: rest)
      else if g = .char ',' then member fuel (skipSpace rest)
      else (([], some (.fatal .malformed)), none)

def member : Nat → List Glyph → Step (List (Option String × Draft) × Option Defect)
  | 0, _ => (([], some (.fatal .truncated)), none)
  | _ + 1, [] => (([], some (.fatal .truncated)), none)
  | fuel + 1, .char '"' :: rest =>
    match quotedText rest with
    | (.error d, none) => (([], some d), none)
    | (.ok _, none) => (([], some (.fatal .truncated)), none)
    | (key, some rest) =>
      let key := key.toOption
      match skipSpace rest with
      | .char ':' :: rest =>
        match value fuel rest with
        | (d, none) => (([(key, d)], none), none)
        | (d, some rest) =>
          match members fuel false rest with
          | ((ms, ending), after) => (((key, d) :: ms, ending), after)
      | [] => (([(key, .defect (.fatal .truncated))], none), none)
      | _ => (([(key, .defect (.fatal .malformed))], none), none)
  | _ + 1, _ => (([], some (.fatal .malformed)), none)

end

/-- A whole text: its value, and whether anything but blanks follows the value. -/
structure Document where
  root : Draft
  followed : Bool

def document (gs : List Glyph) : Document :=
  match value (3 * gs.length + 3) gs with
  | (d, none) => ⟨d, false⟩
  | (d, some rest) => ⟨d, !(skipSpace rest).isEmpty⟩

/-- Reads a whole text by its root. -/
def Document.read {α : Type} (doc : Document) (read : Draft → Except Fault α) : Except Fault α :=
  match read doc.root with
  | .error f => .error f
  | .ok a => if doc.followed then .error .malformed else .ok a

def documentOf (source : String) : Document := document (source.toList.map .char)

end Json

end AccountGroups
