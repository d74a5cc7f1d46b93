/-!
# What can be wrong with an expression

Causes of failure while a text is read or a tree is evaluated, each with the wording that names
place and cause. Positions count the octets of the text in UTF-8.
-/

namespace AccountGroups

inductive ExprError where
  | unexpectedCharacter (character : Char) (position : Nat)
  | unexpectedToken (expected found : String) (position : Nat)
  | unknownCommand (word : String) (position : Nat)
  | unreadableFile (path reason : String)
  | invalidHandle (path : String) (line : Nat) (handle : String)
  | notFetched (key : String)
  deriving DecidableEq

namespace ExprError

inductive Kind where
  | malformed
  | unknownCommand
  | unreadable
  | unresolved
  deriving DecidableEq

def kind : ExprError → Kind
  | unexpectedCharacter .. | unexpectedToken .. | invalidHandle .. => .malformed
  | unknownCommand .. => .unknownCommand
  | unreadableFile .. => .unreadable
  | notFetched .. => .unresolved

def message : ExprError → String
  | unexpectedCharacter character position =>
    s!"syntax error at position {position}: unexpected character '{character}'"
  | unexpectedToken expected found position =>
    s!"syntax error at position {position}: expected {expected}, found {found}"
  | unknownCommand word position =>
    s!"unknown command '{word}' at position {position} (expected followers or following)"
  | unreadableFile path reason => s!"cannot read handle file '{path}': {reason}"
  | invalidHandle path line handle => s!"invalid handle '{handle}' on line {line} of '{path}'"
  | notFetched key => s!"no fetched data for '{key}'"

end ExprError

end AccountGroups
