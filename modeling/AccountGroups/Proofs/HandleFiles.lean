import AccountGroups.Proofs.Composition
import AccountGroups.Proofs.Rendering

/-!
# Files of handles as sets

A file literal stands for the set literal of the handles in its file. What separates them there is
told by the lines of the file, with the line ends of either convention, and by the blanks around
each handle. A line that holds anything else is reported with its number among all lines.
-/

namespace AccountGroups

namespace Text

theorem split_eq_splitOn (separator : Char) (cs : List Char) :
    split separator cs = cs.splitOn separator := by
  have hcons (c : Char) (cs : List Char) := List.splitOnP_cons_eq_if_modifyHead
    (p := (· == separator)) c cs
  induction cs with
  | nil => rfl
  | cons c cs ih =>
    rw [List.splitOn] at ih ⊢
    rw [hcons, split, ih]
    by_cases hc : c = separator
    · simp [hc]
    · cases hs : List.splitOnP (· == separator) cs with
      | nil => exact absurd (ih.trans hs) (split_ne_nil separator cs)
      | cons piece pieces => simp [hc]

/-- A carriage return before a line feed does not belong to the line. -/
def withoutReturn (line : List Char) : List Char :=
  if line.getLast? = some '\r' then line.dropLast else line

/-- The lines among pieces between line feeds. Behind the last line feed stands a line only if there
is any text. -/
def linesOf : List (List Char) → List (List Char)
  | [] => []
  | [last] => if last.isEmpty then [] else [last]
  | piece :: pieces => withoutReturn piece :: linesOf pieces

def lines (text : String) : List (List Char) := linesOf (text.toList.splitOn '\n')

theorem trim_concat_of_isBlank {cs : List Char} {b : Char} (hb : isBlank b = true) :
    trim (cs ++ [b]) = trim cs := by
  have happend : trimLeft (cs ++ [b]) =
      if (trimLeft cs).isEmpty then [] else trimLeft cs ++ [b] := by
    simp [trimLeft, List.dropWhile_append, hb]
  rw [trim, trim, happend]
  cases trimLeft cs with
  | nil => rfl
  | cons c rest => simp [trimLeft, hb]

theorem trim_withoutReturn (line : List Char) : trim (withoutReturn line) = trim line := by
  unfold withoutReturn
  split
  · next hlast =>
    obtain ⟨front, rfl⟩ := List.getLast?_eq_some_iff.1 hlast
    rw [List.dropLast_concat, trim_concat_of_isBlank rfl]
  · rfl

end Text

open Token

namespace HandleFile

theorem handles_cons_congr {path : String} {number : Nat} {line line' : List Char}
    {rest rest' : List (List Char)} (h : Text.trim line = Text.trim line')
    (hrest : handles path (number + 1) rest = handles path (number + 1) rest') :
    handles path number (line :: rest) = handles path number (line' :: rest') := by
  simp only [handles, h, hrest]

/-- A carriage return at the end of a line is a blank, and a line without text has no handle. -/
theorem handles_linesOf (path : String) (number : Nat) (pieces : List (List Char)) :
    handles path number (Text.linesOf pieces) = handles path number pieces := by
  induction pieces generalizing number with
  | nil => rfl
  | cons piece pieces ih =>
    cases pieces with
    | nil => cases piece <;> rfl
    | cons next pieces =>
      exact handles_cons_congr (Text.trim_withoutReturn piece) (ih (number + 1))

theorem read_eq_handles_lines {files : Files} {path text : String} (h : files path = .ok text) :
    read files path = handles path 1 (Text.lines text) := by
  simp only [read, h, Text.split_eq_splitOn, Text.lines, handles_linesOf]

end HandleFile

/-- The same handles in lowercase, in any order and number. -/
def SameHandles (vs ws : List String) : Prop :=
  ∀ h, (∃ v ∈ vs, Text.lowercase v = h) ↔ ∃ w ∈ ws, Text.lowercase w = h

/-- A set of handles is told by their lowercase forms. -/
theorem HandleSet.ofHandles_eq_iff {vs ws : List String} :
    ofHandles vs = ofHandles ws ↔ SameHandles vs ws := by
  constructor
  · intro h w
    rw [← mem_ofHandles, ← mem_ofHandles, h]
  · intro h
    apply Ascending.ext
    intro w
    rw [mem_ofHandles, mem_ofHandles]
    exact h w

theorem SameHandles.ofHandles_eq {vs ws : List String} (h : SameHandles vs ws) :
    Source.ofHandles vs = Source.ofHandles ws :=
  congrArg Source.handles (HandleSet.ofHandles_eq_iff.2 h)

namespace Expr

variable {files : Files}

/-- The set literal of the words. -/
def setLiteral (words : List String) : String := Text.braced (", ".intercalate words)

theorem forms_setLiteral {words : List String} (hw : ∀ w ∈ words, IsBareword w) :
    Forms files .primary (setLiteral words).toList (source (.ofHandles words)) 0 := by
  have hclose := Shows.mark (c := '}') rfl .nil
  have hlist := shows_listed hw (endsWord_cons.2 rfl) hclose
  have hall := Shows.mark (c := '{') rfl hlist
  have hliteral : Shows (setLiteral words).toList
      (.openBrace :: Lexeme.listed words ++ [.closeBrace]) := by
    simpa [setLiteral] using hall
  exact ⟨_, hliteral, .set words⟩

theorem read_setLiteral {words : List String} (hw : ∀ w ∈ words, IsBareword w) :
    read files (setLiteral words) = .ok (source (.ofHandles words)) :=
  (forms_setLiteral hw).operand.read_of_le (Nat.zero_le _)

theorem read_fileLiteral {path : String} (hpath : '>' ∉ path.toList) :
    read files ("<" ++ path ++ ">") =
      (HandleFile.read files path).map fun found => source (.ofHandles found) := by
  have hscan : scan ("<" ++ path ++ ">") = .ok [⟨.file path, 0⟩] := by
    rw [scan_eq_ok_iff_spelled]
    simpa using Spelled.file (p := 0) hpath .nil
  simp only [read, hscan, State.run, State.step, State.start]
  cases HandleFile.read files path <;> rfl

/-- A file literal is read as the handles in its file, or the first other line is reported. -/
theorem read_fileLiteral_cases {path text : String} (hpath : '>' ∉ path.toList)
    (htext : files path = .ok text) :
    ((∀ line ∈ Text.lines text, HandleFile.Readable line) ∧
      read files ("<" ++ path ++ ">") =
        .ok (source (.ofHandles (HandleFile.entriesOf (Text.lines text))))) ∨
    ∃ k line, (Text.lines text)[k]? = some line ∧ ¬ HandleFile.Readable line ∧
      (∀ j < k, ∀ other, (Text.lines text)[j]? = some other → HandleFile.Readable other) ∧
      read files ("<" ++ path ++ ">") =
        .error (.invalidHandle path (k + 1) (String.ofList (Text.trim line))) := by
  rw [read_fileLiteral hpath, HandleFile.read_eq_handles_lines htext]
  rcases HandleFile.handles_cases path 1 (Text.lines text) with
    ⟨hall, hok⟩ | ⟨k, line, hk, hbad, hbefore, herror⟩
  · exact .inl ⟨hall, by rw [hok]; rfl⟩
  · exact .inr ⟨k, line, hk, hbad, hbefore, by rw [herror, Nat.add_comm]; rfl⟩

/-- A file literal is read when the lines of the file hold handles and nothing else, and then as the
set literal of these handles; a file with the same handles in other letter case, order, number or
layout is read alike, and a blank file as the empty set. Otherwise the first other line is reported,
with its number among all lines. -/
theorem read_fileLiteral_eq_setLiteral (files : Files) {path text : String}
    (hpath : '>' ∉ path.toList) (htext : files path = .ok text) :
    let lines := Text.lines text
    let words := HandleFile.entriesOf lines
    ((∃ e, read files ("<" ++ path ++ ">") = .ok e) ↔
      ∀ line ∈ lines, HandleFile.Readable line) ∧
    ((∀ line ∈ lines, HandleFile.Readable line) → ∀ others,
      read files ("<" ++ path ++ ">") = read others (setLiteral words) ∧
      (words = [] → read files ("<" ++ path ++ ">") = read others "{}") ∧
      ∀ path' text', '>' ∉ path'.toList → others path' = .ok text' →
        (∀ line ∈ Text.lines text', HandleFile.Readable line) →
        SameHandles words (HandleFile.entriesOf (Text.lines text')) →
        read files ("<" ++ path ++ ">") = read others ("<" ++ path' ++ ">")) ∧
    ((¬ ∀ line ∈ lines, HandleFile.Readable line) →
      ∃ k line, lines[k]? = some line ∧ ¬ HandleFile.Readable line ∧
        (∀ j < k, ∀ other, lines[j]? = some other → HandleFile.Readable other) ∧
        read files ("<" ++ path ++ ">") =
          .error (.invalidHandle path (k + 1) (String.ofList (Text.trim line)))) := by
  intro lines words
  rcases read_fileLiteral_cases hpath htext with ⟨hall, hok⟩ | ⟨k, line, hk, hbad, hbefore, herror⟩
  · refine ⟨⟨fun _ => hall, fun _ => ⟨_, hok⟩⟩, fun _ others => ?_, fun hno => (hno hall).elim⟩
    have hliteral : read files ("<" ++ path ++ ">") = read others (setLiteral words) :=
      hok.trans (read_setLiteral (HandleFile.forall_isBareword_iff.2 hall)).symm
    refine ⟨hliteral, fun hnone => ?_, fun path' text' hpath' htext' hall' hsame => ?_⟩
    · rw [hliteral, hnone]
      rfl
    · rcases read_fileLiteral_cases hpath' htext' with ⟨-, hok'⟩ | ⟨j, other, hj, hother, -⟩
      · rw [hok, hok', hsame.ofHandles_eq]
      · exact (hother (hall' other (List.mem_of_getElem? hj))).elim
  · have hno : ¬ ∀ line ∈ lines, HandleFile.Readable line := fun hall =>
      hbad (hall line (List.mem_of_getElem? hk))
    refine ⟨⟨fun ⟨e, he⟩ => ?_, fun hall => (hno hall).elim⟩, fun hall => (hno hall).elim,
      fun _ => ⟨k, line, hk, hbad, hbefore, herror⟩⟩
    cases he.symm.trans herror

/-- Line ends of both conventions, a blank line, an ideographic space and no line end at the end; a
second file with two lines that are no handles. -/
theorem read_fileLiteral_eq_setLiteral_mixed :
    let text := " Carol\r\n\r\n\u3000dave \nCAROL"
    let other := "x\r\n\n \t@al \r\nfirst.last"
    let files : Files := fun path => .ok (if path = "é" then text else other)
    '>' ∉ "é".toList ∧ files "é" = .ok text ∧
      (∀ line ∈ Text.lines text, HandleFile.Readable line) ∧
      read files ("<" ++ "é" ++ ">") = read .error "{Carol, dave, CAROL}" ∧
      '>' ∉ "b".toList ∧ files "b" = .ok other ∧
      (¬ ∀ line ∈ Text.lines other, HandleFile.Readable line) ∧
      ∃ k line, (Text.lines other)[k]? = some line ∧ ¬ HandleFile.Readable line ∧
        read files ("<" ++ "b" ++ ">") =
          .error (.invalidHandle "b" (k + 1) (String.ofList (Text.trim line))) := by
  intro text other files
  have hpath : '>' ∉ "é".toList := by decide
  have hpath' : '>' ∉ "b".toList := by decide
  have hall : ∀ line ∈ Text.lines text, HandleFile.Readable line := by decide
  have hbad : ¬ ∀ line ∈ Text.lines other, HandleFile.Readable line := by decide
  have hwords : HandleFile.entriesOf (Text.lines text) = ["Carol", "dave", "CAROL"] := by
    decide
  have htext : files "é" = .ok text := rfl
  have hother : files "b" = .ok other := rfl
  obtain ⟨-, hread, -⟩ := read_fileLiteral_eq_setLiteral files hpath htext
  obtain ⟨-, -, hreport⟩ := read_fileLiteral_eq_setLiteral files hpath' hother
  obtain ⟨hliteral, -⟩ := hread hall .error
  obtain ⟨k, line, hk, hline, -, herror⟩ := hreport hbad
  rw [hwords] at hliteral
  exact ⟨hpath, htext, hall, hliteral, hpath', hother, hbad, k, line, hk, hline, herror⟩

end Expr

end AccountGroups
