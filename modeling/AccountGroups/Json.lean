import AccountGroups.Text.Basic

/-!
# JSON values and their text

A number is a natural number or else the numeral it was written with. The text has no blanks, and a
string is written with the shortest escapes.
-/

namespace AccountGroups

inductive Json where
  | null
  | bool (value : Bool)
  | natural (n : Nat)
  | numeral (text : List Char)
  | string (text : String)
  | array (items : List Json)
  | object (members : List (String × Json))

namespace Json

def hexDigit (n : Nat) : Char := Char.ofNat (if n < 10 then 48 + n else 87 + n)

def escape (c : Char) : List Char :=
  if c = '"' then ['\\', '"']
  else if c = '\\' then ['\\', '\\']
  else if c.toNat < 0x20 then
    if c = '\n' then ['\\', 'n']
    else if c = '\r' then ['\\', 'r']
    else if c = '\t' then ['\\', 't']
    else if c = '\x08' then ['\\', 'b']
    else if c = '\x0c' then ['\\', 'f']
    else ['\\', 'u', '0', '0', hexDigit (c.toNat / 16), hexDigit (c.toNat % 16)]
  else [c]

def quoted (s : String) (rest : List Char) : List Char :=
  '"' :: s.toList.flatMap escape ++ '"' :: rest

mutual

/-- Puts the text of a value in front of what is to follow it. -/
def write : Json → List Char → List Char
  | null, rest => 'n' :: 'u' :: 'l' :: 'l' :: rest
  | bool true, rest => 't' :: 'r' :: 'u' :: 'e' :: rest
  | bool false, rest => 'f' :: 'a' :: 'l' :: 's' :: 'e' :: rest
  | natural n, rest => Text.digits n ++ rest
  | numeral text, rest => text ++ rest
  | string text, rest => quoted text rest
  | array items, rest => '[' :: writeItems items (']' :: rest)
  | object members, rest => '{' :: writeMembers members ('}' :: rest)

def writeItems : List Json → List Char → List Char
  | [], rest => rest
  | [item], rest => item.write rest
  | item :: items, rest => item.write (',' :: writeItems items rest)

def writeMembers : List (String × Json) → List Char → List Char
  | [], rest => rest
  | [(key, value)], rest => quoted key (':' :: value.write rest)
  | (key, value) :: members, rest =>
    quoted key (':' :: value.write (',' :: writeMembers members rest))

end

def text (j : Json) : String := String.ofList (j.write [])

def strings (ss : List String) : Json := .array (ss.map .string)

/-- The value of a member of an object. -/
def member? (j : Json) (key : String) : Option Json :=
  match j with
  | object members => (members.find? fun m => m.1 == key).map (·.2)
  | _ => none

end Json

end AccountGroups
