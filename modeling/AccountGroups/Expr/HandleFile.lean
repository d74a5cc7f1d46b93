import AccountGroups.Expr.Error
import AccountGroups.Source
import AccountGroups.Text.Basic
import AccountGroups.Token

/-!
# Files of handles

One handle stands on a line. Blanks around it and lines without any other character do not count,
and the first line that holds anything but a bareword is reported.
-/

namespace AccountGroups

namespace Text

/-- The pieces between the separators, one more than there are separators. -/
def split (separator : Char) : List Char → List (List Char)
  | [] => [[]]
  | c :: cs =>
    if c = separator then [] :: split separator cs
    else
      match split separator cs with
      | piece :: pieces => (c :: piece) :: pieces
      | [] => [[c]]

theorem split_ne_nil (separator : Char) (cs : List Char) : split separator cs ≠ [] := by
  cases cs with
  | nil => simp [split]
  | cons c cs =>
    unfold split
    split
    · simp
    · split <;> simp

end Text

/-- What a path leads to: a text, or the reason why there is none. -/
abbrev Files := String → Except String String

namespace HandleFile

/-- The handles on the lines from the given number on. -/
def handles (path : String) : Nat → List (List Char) → Except ExprError (List String)
  | _, [] => .ok []
  | number, line :: rest =>
    let handle := Text.trim line
    if handle.isEmpty then handles path (number + 1) rest
    else if handle.all Token.isWordChar then
      (handles path (number + 1) rest).map (String.ofList handle :: ·)
    else .error (.invalidHandle path number (String.ofList handle))

def read (files : Files) (path : String) : Except ExprError (List String) :=
  match files path with
  | .error reason => .error (.unreadableFile path reason)
  | .ok text => handles path 1 (Text.split '\n' text.toList)

end HandleFile

end AccountGroups
