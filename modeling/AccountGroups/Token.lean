import AccountGroups.Expr.Error

/-!
# Tokens of an expression

A text is cut into barewords, marks of one character and file literals `<path>`; spaces, tabs and
line ends between them are dropped. One character is read at a time, and the mode remembers a
bareword or a path that is not yet complete together with the place where it began.
-/

namespace AccountGroups

inductive Lexeme where
  | bareword (word : String)
  | dot
  | slash
  | ampersand
  | bar
  | tilde
  | openParen
  | closeParen
  | openBrace
  | closeBrace
  | comma
  | file (path : String)
  | endOfInput
  deriving DecidableEq

namespace Lexeme

/-- The text that a lexeme carries; that of a file literal is the path alone. -/
def text : Lexeme → String
  | bareword word => word
  | dot => "."
  | slash => "/"
  | ampersand => "&"
  | bar => "|"
  | tilde => "~"
  | openParen => "("
  | closeParen => ")"
  | openBrace => .singleton '{'
  | closeBrace => .singleton '}'
  | comma => ","
  | file path => path
  | endOfInput => ""

/-- What a lexeme of this kind is called where one is expected. -/
def noun : Lexeme → String
  | bareword _ => "bareword"
  | file _ => "file literal"
  | endOfInput => "end of input"
  | l => "'" ++ l.text ++ "'"

/-- What a lexeme is called where it is found. -/
def found : Lexeme → String
  | endOfInput => "end of input"
  | file path => "'<" ++ path ++ ">'"
  | l => "'" ++ l.text ++ "'"

end Lexeme

structure Token where
  lexeme : Lexeme
  position : Nat
  deriving DecidableEq

namespace Token

def isWordChar (c : Char) : Bool := c.isAlphanum || c == '_' || c == '-'

def isGap (c : Char) : Bool := c == ' ' || c == '\t' || c == '\r' || c == '\n'

def mark? : Char → Option Lexeme
  | '.' => some .dot
  | '/' => some .slash
  | '&' => some .ampersand
  | '|' => some .bar
  | '~' => some .tilde
  | '(' => some .openParen
  | ')' => some .closeParen
  | '{' => some .openBrace
  | '}' => some .closeBrace
  | ',' => some .comma
  | _ => none

/-- What is being read, and the characters of it so far, the last one first. -/
inductive Mode where
  | between
  | word (start : Nat) (read : List Char)
  | path (start : Nat) (read : List Char)

def wordToken (start : Nat) (read : List Char) : Token :=
  ⟨.bareword (String.ofList read.reverse), start⟩

def pathToken (start : Nat) (read : List Char) : Token :=
  ⟨.file (String.ofList read.reverse), start⟩

/-- A character at the start of a token or of a gap. -/
def enter (position : Nat) (c : Char) : Except ExprError (List Token × Mode) :=
  if isWordChar c then .ok ([], .word position [c])
  else if c = '<' then .ok ([], .path position [])
  else match mark? c with
    | some lexeme => .ok ([⟨lexeme, position⟩], .between)
    | none =>
      if isGap c then .ok ([], .between) else .error (.unexpectedCharacter c position)

/-- The tokens that one character completes, and the mode after it. -/
def advance : Mode → Nat → Char → Except ExprError (List Token × Mode)
  | .between, position, c => enter position c
  | .word start read, position, c =>
    if isWordChar c then .ok ([], .word start (c :: read))
    else (enter position c).map fun r => (wordToken start read :: r.1, r.2)
  | .path start read, _, c =>
    if c = '>' then .ok ([pathToken start read], .between) else .ok ([], .path start (c :: read))

/-- At the end of the text a bareword is complete and a path is not. -/
def close : Mode → Except ExprError (List Token)
  | .between => .ok []
  | .word start read => .ok [wordToken start read]
  | .path start _ => .error (.unexpectedCharacter '<' start)

def scanFrom (mode : Mode) (position : Nat) : List Char → Except ExprError (List Token)
  | [] => close mode
  | c :: cs =>
    match advance mode position c with
    | .error e => .error e
    | .ok (tokens, next) => (scanFrom next (position + c.utf8Size) cs).map (tokens ++ ·)

/-- The tokens of a text up to its end. -/
def scan (source : String) : Except ExprError (List Token) := scanFrom .between 0 source.toList

def endOf (source : String) : Token := ⟨.endOfInput, source.utf8ByteSize⟩

/-- The tokens of a text, and its end as a last one. -/
def stream (source : String) : Except ExprError (List Token) :=
  (scan source).map (· ++ [endOf source])

end Token

end AccountGroups
