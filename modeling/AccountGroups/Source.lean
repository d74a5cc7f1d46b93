import AccountGroups.Ascending
import AccountGroups.Text.Lowercase

/-!
# Sources of account ids

What an expression is built from: the followers of an account, the accounts it follows, the members
of a list, or accounts named one by one. Handles are kept in lowercase, list names as written.
Every source has a key, and fetched ids are filed under it.
-/

namespace AccountGroups

namespace Text

def braced (text : String) : String := .singleton '{' ++ text ++ .singleton '}'

@[simp] theorem toList_braced (text : String) :
    (braced text).toList = '{' :: text.toList ++ ['}'] := by
  simp [braced]

theorem braced_inj {s t : String} : braced s = braced t ↔ s = t := by
  rw [braced, braced, String.append_left_inj, String.append_right_inj]

end Text

abbrev HandleSet := Ascending String

namespace HandleSet

def ofHandles (handles : List String) : HandleSet := .ofList (handles.map Text.lowercase)

def joined (separator : String) (set : HandleSet) : String :=
  Text.braced (separator.intercalate set.toList)

def key (set : HandleSet) : String := joined "," set

def render (set : HandleSet) : String := joined ", " set

end HandleSet

inductive Source where
  | followers (handle : String)
  | following (handle : String)
  | members (owner list : String)
  | handles (set : HandleSet)
  deriving DecidableEq

namespace Source

def followersOf (handle : String) : Source := .followers (Text.lowercase handle)

def followingOf (handle : String) : Source := .following (Text.lowercase handle)

def membersOf (owner list : String) : Source := .members (Text.lowercase owner) list

def ofHandles (handles : List String) : Source := .handles (.ofHandles handles)

def key : Source → String
  | followers handle => handle ++ ".followers"
  | following handle => handle ++ ".following"
  | members owner list => owner ++ "/" ++ list
  | handles set => HandleSet.key set

def render : Source → String
  | handles set => HandleSet.render set
  | s => s.key

end Source

end AccountGroups
