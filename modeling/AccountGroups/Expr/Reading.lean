import AccountGroups.Expr
import AccountGroups.Expr.HandleFile

/-!
# Reading expressions

```text
expression := primary { ('&' | '|') primary }
primary    := '~' primary | '(' expression ')' | '{' [ word { ',' word } ] '}'
            | word '.' command | word '/' word | file
```

Tokens are read one at a time. The state is a place in this grammar and a stack of the openings that
are still to be completed, so that each token is accepted or refused on sight of the state alone.
At most `maxNesting` openings `~` and `(` stand inside each other.
-/

namespace AccountGroups

namespace Expr

def maxNesting : Nat := 256

inductive Operator where
  | inter
  | union
  deriving DecidableEq

def Operator.apply : Operator → Expr → Expr → Expr
  | .inter => .inter
  | .union => .union

/-- An opening that waits for the primary that completes it. -/
inductive Opening where
  | tilde
  | paren
  | left (operand : Expr) (operator : Operator)
  deriving DecidableEq

/-- Where reading stands: before a primary, inside one, or after a whole operand. -/
inductive Place where
  | primary
  | afterHandle (handle : String)
  | command (handle : String)
  | list (owner : String)
  | firstMember
  | afterMember (read : List String)
  | member (read : List String)
  | operator (operand : Expr)
  deriving DecidableEq

structure State where
  place : Place
  openings : List Opening
  deriving DecidableEq

def State.start : State := ⟨.primary, []⟩

/-- The state after a primary: complements close over it, a left operand takes it in. -/
def State.complete (e : Expr) : List Opening → State
  | .tilde :: openings => complete (.compl e) openings
  | .left operand operator :: openings => ⟨.operator (operator.apply operand e), openings⟩
  | openings => ⟨.operator e, openings⟩

def Opening.nests : Opening → Bool
  | .left .. => false
  | _ => true

def State.depth (s : State) : Nat := s.openings.countP Opening.nests

def State.expected (s : State) : String :=
  match s.place with
  | .primary => "expression"
  | .afterHandle _ => "'.' or '/'"
  | .command _ | .list _ | .member _ => (Lexeme.bareword "").noun
  | .firstMember | .afterMember _ => Lexeme.closeBrace.noun
  | .operator _ =>
    match s.openings with
    | [] => Lexeme.endOfInput.noun
    | _ => Lexeme.closeParen.noun

def refuse {α : Type} (expected : String) (t : Token) : Except ExprError α :=
  .error (.unexpectedToken expected t.lexeme.found t.position)

def State.nest (s : State) (opening : Opening) (t : Token) : Except ExprError State :=
  if s.depth < maxNesting then .ok ⟨.primary, opening :: s.openings⟩
  else refuse s!"at most {maxNesting} nested '~' or '('" t

/-- The source that a command asks of a handle. -/
def command? (word : String) : Option (String → Source) :=
  if Text.sameLetters "followers" word then some .followersOf
  else if Text.sameLetters "following" word then some .followingOf
  else none

def State.step (files : Files) (s : State) (t : Token) : Except ExprError State :=
  match s.place, t.lexeme with
  | .primary, .tilde => s.nest .tilde t
  | .primary, .openParen => s.nest .paren t
  | .primary, .openBrace => .ok ⟨.firstMember, s.openings⟩
  | .primary, .bareword handle => .ok ⟨.afterHandle handle, s.openings⟩
  | .primary, .file path =>
    (HandleFile.read files path).map fun handles =>
      .complete (.source (.ofHandles handles)) s.openings
  | .afterHandle handle, .dot => .ok ⟨.command handle, s.openings⟩
  | .afterHandle owner, .slash => .ok ⟨.list owner, s.openings⟩
  | .command handle, .bareword word =>
    match command? word with
    | some sourceOf => .ok (.complete (.source (sourceOf handle)) s.openings)
    | none => .error (.unknownCommand word t.position)
  | .list owner, .bareword list => .ok (.complete (.source (.membersOf owner list)) s.openings)
  | .firstMember, .bareword handle => .ok ⟨.afterMember [handle], s.openings⟩
  | .firstMember, .closeBrace => .ok (.complete (.source (.ofHandles [])) s.openings)
  | .afterMember read, .comma => .ok ⟨.member read, s.openings⟩
  | .afterMember read, .closeBrace =>
    .ok (.complete (.source (.ofHandles read.reverse)) s.openings)
  | .member read, .bareword handle => .ok ⟨.afterMember (handle :: read), s.openings⟩
  | .operator e, .ampersand => .ok ⟨.primary, .left e .inter :: s.openings⟩
  | .operator e, .bar => .ok ⟨.primary, .left e .union :: s.openings⟩
  | .operator e, .closeParen =>
    match s.openings with
    | .paren :: openings => .ok (.complete e openings)
    | _ => refuse s.expected t
  | _, _ => refuse s.expected t

/-- The text may end after an operand when nothing is left open. -/
def State.finish (s : State) (t : Token) : Except ExprError Expr :=
  match s.place, s.openings with
  | .operator e, [] => .ok e
  | _, _ => refuse s.expected t

def State.run (files : Files) (s : State) : List Token → Except ExprError State
  | [] => .ok s
  | t :: ts =>
    match s.step files t with
    | .error e => .error e
    | .ok next => next.run files ts

@[simp] theorem State.run_nil (files : Files) (s : State) : s.run files [] = .ok s := rfl

theorem State.run_append (files : Files) (s : State) (ts us : List Token) :
    s.run files (ts ++ us) = (s.run files ts).bind (·.run files us) := by
  induction ts generalizing s with
  | nil => rfl
  | cons t ts ih =>
    simp only [List.cons_append, State.run]
    cases s.step files t with
    | error e => rfl
    | ok next => exact ih next

def read (files : Files) (source : String) : Except ExprError Expr :=
  match Token.scan source with
  | .error e => .error e
  | .ok tokens =>
    match State.start.run files tokens with
    | .error e => .error e
    | .ok s => s.finish (Token.endOf source)

end Expr

end AccountGroups
