import AccountGroups.Expr.HandleFile
import AccountGroups.Text.Utf8

/-!
# Files by their paths

What opening a path gives, and the text of a file. A folder can be opened but not read.
-/

namespace AccountGroups

inductive FileError where
  | notFound
  | notFolder
  | isFolder
  | nameTooLong
  | nulInPath
  | notText
  | other (reason : String)
  deriving DecidableEq

def FileError.message : FileError → String
  | notFound => "No such file or directory (os error 2)"
  | notFolder => "Not a directory (os error 20)"
  | isFolder => "Is a directory (os error 21)"
  | nameTooLong => "File name too long (os error 36)"
  | nulInPath => "file name contained an unexpected NUL byte"
  | notText => "stream did not contain valid UTF-8"
  | other reason => reason

inductive Opened where
  | octets (content : List UInt8)
  | folder
  deriving DecidableEq

abbrev Disk := String → Except FileError Opened

namespace Disk

def text (disk : Disk) (path : String) : Except FileError String :=
  match disk path with
  | .error e => .error e
  | .ok .folder => .error .isFolder
  | .ok (.octets content) =>
    match Text.chars? (Text.glyphs content) with
    | some cs => .ok (String.ofList cs)
    | none => .error .notText

def files (disk : Disk) : Files := fun path => (disk.text path).mapError FileError.message

end Disk

end AccountGroups
