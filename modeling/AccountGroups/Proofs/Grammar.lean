import AccountGroups.Proofs.Reading
import AccountGroups.Proofs.Spelling

/-!
# The grammar of expressions

The grammar as an inductive relation between lexemes, the tree that they derive and the greatest
number of openings `~` and `(` around a place of the derivation. Reading a text finds this tree
and no other, as long as that number is at most `maxNesting`.
-/

namespace AccountGroups

namespace HandleFile

/-- The lines without the blanks around them, and without those of which nothing is left. -/
def entriesOf (lines : List (List Char)) : List String :=
  ((lines.map Text.trim).filter fun line => !line.isEmpty).map String.ofList

def entries (text : String) : List String := entriesOf (Text.split '\n' text.toList)

theorem entriesOf_cons (line : List Char) (lines : List (List Char)) :
    entriesOf (line :: lines) =
      if (Text.trim line).isEmpty then entriesOf lines
      else String.ofList (Text.trim line) :: entriesOf lines := by
  cases h : (Text.trim line).isEmpty <;> simp [entriesOf, h]

/-- Without the blanks around it, the line has no other characters than those of barewords. -/
def Readable (line : List Char) : Prop := ∀ c ∈ Text.trim line, Token.isWordChar c = true

instance (line : List Char) : Decidable (Readable line) :=
  decidable_of_iff ((Text.trim line).all Token.isWordChar = true) List.all_eq_true

/-- The entries are barewords where every line is readable. -/
theorem forall_isBareword_iff {lines : List (List Char)} :
    (∀ entry ∈ entriesOf lines, Token.IsBareword entry) ↔ ∀ line ∈ lines, Readable line := by
  induction lines with
  | nil => simp [entriesOf]
  | cons line lines ih =>
    rw [entriesOf_cons, List.forall_mem_cons, ← ih]
    cases htrim : Text.trim line with
    | nil => simp [Readable, htrim]
    | cons c rest =>
      have hword : Token.IsBareword (String.ofList (c :: rest)) ↔ Readable line := by
        simp [Token.IsBareword, Readable, htrim]
      simp only [List.isEmpty_cons, Bool.false_eq_true, if_false, List.forall_mem_cons, hword]

theorem handles_of_readable {path : String} {number : Nat} {line : List Char}
    {lines : List (List Char)} (h : Readable line) :
    handles path number (line :: lines) =
      (handles path (number + 1) lines).map fun found =>
        if (Text.trim line).isEmpty then found else String.ofList (Text.trim line) :: found := by
  have hword : (Text.trim line).all Token.isWordChar = true := List.all_eq_true.2 h
  simp only [handles, hword, if_true]
  cases (Text.trim line).isEmpty <;> cases handles path (number + 1) lines <;> rfl

theorem handles_of_not_readable {path : String} {number : Nat} {line : List Char}
    {lines : List (List Char)} (h : ¬ Readable line) :
    handles path number (line :: lines) =
      .error (.invalidHandle path number (String.ofList (Text.trim line))) := by
  have hne : (Text.trim line).isEmpty = false := by
    cases htrim : Text.trim line with
    | nil => exact absurd (by simp [Readable, htrim]) h
    | cons c rest => rfl
  have hword : (Text.trim line).all Token.isWordChar = false := by
    rw [← Bool.not_eq_true, List.all_eq_true]
    exact h
  simp only [handles, hne, hword, Bool.false_eq_true, if_false]

/-- The lines are read as their handles, or the first one that has no handle is reported. -/
theorem handles_cases (path : String) (number : Nat) (lines : List (List Char)) :
    ((∀ line ∈ lines, Readable line) ∧ handles path number lines = .ok (entriesOf lines)) ∨
      ∃ k line, lines[k]? = some line ∧ ¬ Readable line ∧
        (∀ j < k, ∀ other, lines[j]? = some other → Readable other) ∧
        handles path number lines =
          .error (.invalidHandle path (number + k) (String.ofList (Text.trim line))) := by
  induction lines generalizing number with
  | nil => exact .inl ⟨by simp, rfl⟩
  | cons line lines ih =>
    by_cases hline : Readable line
    · rcases ih (number + 1) with ⟨hall, hok⟩ | ⟨k, bad, hk, hbad, hbefore, herror⟩
      · refine .inl ⟨List.forall_mem_cons.2 ⟨hline, hall⟩, ?_⟩
        rw [handles_of_readable hline, hok, entriesOf_cons]
        rfl
      · refine .inr ⟨k + 1, bad, hk, hbad, ?_, ?_⟩
        · intro j hj other hother
          cases j with
          | zero =>
            cases hother
            exact hline
          | succ j => exact hbefore j (Nat.lt_of_succ_lt_succ hj) other hother
        · rw [handles_of_readable hline, herror, Nat.add_right_comm]
          rfl
    · exact .inr ⟨0, line, rfl, hline, by simp, handles_of_not_readable hline⟩

theorem handles_eq_ok_iff {path : String} {number : Nat} {lines : List (List Char)}
    {found : List String} :
    handles path number lines = .ok found ↔
      (∀ entry ∈ entriesOf lines, Token.IsBareword entry) ∧ found = entriesOf lines := by
  rw [forall_isBareword_iff]
  rcases handles_cases path number lines with ⟨hall, hok⟩ | ⟨k, line, hk, hbad, -, herror⟩
  · rw [hok, Except.ok.injEq, eq_comm]
    exact ⟨fun hfound => ⟨hall, hfound⟩, And.right⟩
  · rw [herror]
    simpa using fun hall => (hbad (hall line (List.mem_of_getElem? hk))).elim

/-- A handle file is read when each of its entries is a bareword, and as these entries. -/
theorem read_eq_ok_iff {files : Files} {path : String} {found : List String} :
    read files path = .ok found ↔ ∃ text, files path = .ok text ∧
      (∀ entry ∈ entries text, Token.IsBareword entry) ∧ found = entries text := by
  unfold read
  cases files path with
  | error reason => simp
  | ok text => simp [handles_eq_ok_iff, entries]

end HandleFile

/-- Barewords with a comma between each two. -/
def Lexeme.listed : List String → List Lexeme
  | [] => []
  | word :: words => .bareword word :: words.flatMap fun w => [.comma, .bareword w]

@[simp] theorem Lexeme.listed_nil : listed [] = [] := rfl

theorem Lexeme.listed_concat {words : List String} (ne : words ≠ []) (word : String) :
    listed (words ++ [word]) = listed words ++ [.comma, .bareword word] := by
  obtain ⟨first, words, rfl⟩ := List.exists_cons_of_ne_nil ne
  simp [listed]

namespace Expr

/-- What a derivation is of. -/
inductive Part where
  | primary
  | expression

/-- `Derives files part ls e d`: the lexemes `ls` form this part with the tree `e`, and the place
in it that stands inside the most openings stands inside `d`. -/
inductive Derives (files : Files) : Part → List Lexeme → Expr → Nat → Prop
  | followers {handle command} (h : Text.sameLetters "followers" command = true) :
      Derives files .primary [.bareword handle, .dot, .bareword command]
        (.source (.followersOf handle)) 0
  | following {handle command} (h : Text.sameLetters "following" command = true) :
      Derives files .primary [.bareword handle, .dot, .bareword command]
        (.source (.followingOf handle)) 0
  | members {owner list} :
      Derives files .primary [.bareword owner, .slash, .bareword list]
        (.source (.membersOf owner list)) 0
  | set (handles : List String) :
      Derives files .primary (.openBrace :: Lexeme.listed handles ++ [.closeBrace])
        (.source (.ofHandles handles)) 0
  | file {path text} (h : files path = .ok text)
      (valid : ∀ entry ∈ HandleFile.entries text, Token.IsBareword entry) :
      Derives files .primary [.file path] (.source (.ofHandles (HandleFile.entries text))) 0
  | tilde {ls e d} (inner : Derives files .primary ls e d) :
      Derives files .primary (.tilde :: ls) (.compl e) (d + 1)
  | paren {ls e d} (inner : Derives files .expression ls e d) :
      Derives files .primary (.openParen :: ls ++ [.closeParen]) e (d + 1)
  | operand {ls e d} (h : Derives files .primary ls e d) : Derives files .expression ls e d
  | binary {ls rs l r d d'} (operator : Operator) (left : Derives files .expression ls l d)
      (right : Derives files .primary rs r d') :
      Derives files .expression (ls ++ operator.lexeme :: rs) (operator.apply l r) (max d d')

variable {files : Files}

/-- The operand that is read next begins a whole expression. -/
def AtGroup : List Opening → Prop
  | [] | .paren :: _ => True
  | .tilde :: _ | .left .. :: _ => False

theorem complete_of_atGroup {os : List Opening} (h : AtGroup os) (e : Expr) :
    State.complete e os = ⟨.operator e, os⟩ := by
  cases os with
  | nil => rfl
  | cons o os =>
    cases o with
    | paren => rfl
    | tilde => exact h.elim
    | left => exact h.elim

namespace Part

def Allows (os : List Opening) : Part → Prop
  | primary => True
  | expression => AtGroup os

/-- Where reading stands when a part with the tree `e` has been read. -/
def completed (e : Expr) (os : List Opening) : Part → State
  | primary => .complete e os
  | expression => ⟨.operator e, os⟩

end Part

theorem command?_followers {word : String} (h : Text.sameLetters "followers" word = true) :
    command? word = some .followersOf := by
  rw [command?, if_pos h]

theorem command?_following {word : String} (h : Text.sameLetters "following" word = true) :
    command? word = some .followingOf := by
  have hne : Text.sameLetters "followers" word = false := by
    simp only [Text.sameLetters, beq_iff_eq] at h
    simp only [Text.sameLetters, ← h]
    decide
  rw [command?, hne, h]
  rfl

theorem members_runs (read words : List String) (os : List Opening) :
    Runs files ⟨.afterMember read, os⟩ (words.flatMap fun w => [.comma, .bareword w])
      ⟨.afterMember (words.reverse ++ read), os⟩ (depthOf os) := by
  induction words generalizing read with
  | nil => exact .nil
  | cons word words ih =>
    have h := Runs.cons .comma (.cons .member (ih (word :: read)))
    simpa using h

theorem set_runs (handles : List String) (os : List Opening) :
    Runs files ⟨.primary, os⟩ (.openBrace :: Lexeme.listed handles ++ [.closeBrace])
      (.complete (.source (.ofHandles handles)) os) (depthOf os) := by
  have hd := State.depth_complete_le (.source (.ofHandles handles)) os
  cases handles with
  | nil =>
    refine (Runs.cons .openSet (.cons .emptySet .nil)).of_eq ?_
    simp only [State.depth_mk]
    omega
  | cons word words =>
    have hm : Runs files _ _ _ _ := members_runs [word] words os
    have hc : Step files ⟨.afterMember (words.reverse ++ [word]), os⟩ .closeBrace
        (.complete (.source (.ofHandles (words.reverse ++ [word]).reverse)) os) := .closeSet
    simp only [List.reverse_append, List.reverse_reverse, List.reverse_singleton,
      List.singleton_append] at hc
    refine (Runs.cons .openSet (.cons .first (hm.snoc hc))).of_eq ?_
    simp only [State.depth_mk]
    omega

theorem Derives.runs {part : Part} {ls : List Lexeme} {e : Expr} {d : Nat}
    (h : Derives files part ls e d) (os : List Opening) (ho : part.Allows os) :
    Runs files ⟨.primary, os⟩ ls (part.completed e os) (depthOf os + d) := by
  induction h generalizing os with
  | @followers handle word h =>
    have hd := State.depth_complete_le (.source (.followersOf handle)) os
    refine (Runs.cons .handle (.cons .dot (.cons (.command (command?_followers h)) .nil))).of_eq ?_
    simp only [State.depth_mk]
    omega
  | @following handle word h =>
    have hd := State.depth_complete_le (.source (.followingOf handle)) os
    refine (Runs.cons .handle (.cons .dot (.cons (.command (command?_following h)) .nil))).of_eq ?_
    simp only [State.depth_mk]
    omega
  | @members owner list =>
    have hd := State.depth_complete_le (.source (.membersOf owner list)) os
    refine (Runs.cons .handle (.cons .slash (.cons .list .nil))).of_eq ?_
    simp only [State.depth_mk]
    omega
  | set handles => exact set_runs handles os
  | @file path text h valid =>
    have hr := HandleFile.read_eq_ok_iff.2 ⟨text, h, valid, rfl⟩
    have hd := State.depth_complete_le (.source (.ofHandles (HandleFile.entries text))) os
    refine (Runs.cons (.file hr) .nil).of_eq ?_
    simp only [State.depth_mk]
    omega
  | @tilde ls e d inner ih =>
    have hi := ih (.tilde :: os) trivial
    refine (Runs.cons .tilde hi).of_eq ?_
    simp only [State.depth_mk, depthOf_tilde]
    omega
  | @paren ls e d inner ih =>
    have hi := ih (.paren :: os) trivial
    have hd := State.depth_complete_le e os
    refine (Runs.cons .paren (hi.snoc .closeParen)).of_eq ?_
    simp only [Part.completed, State.depth_mk, depthOf_paren]
    omega
  | @operand ls e d inner ih =>
    have hi := ih os trivial
    rwa [Part.completed, complete_of_atGroup ho] at hi
  | @binary ls rs l r d d' operator left right ihl ihr =>
    have hl := ihl os ho
    have hr := ihr (.left l operator :: os) trivial
    refine (hl.append (.cons (.operator l operator os) hr)).of_eq ?_
    simp only [Part.completed, State.depth_mk, depthOf_left]
    omega

/-- `Opened files os ls`: reading `ls` leaves the openings `os`, and before each left operand stands
what it is an operand of. -/
inductive Opened (files : Files) : List Opening → List Lexeme → Prop
  | nil : Opened files [] []
  | tilde {os ls} (before : Opened files os ls) : Opened files (.tilde :: os) (ls ++ [.tilde])
  | paren {os ls} (before : Opened files os ls) : Opened files (.paren :: os) (ls ++ [.openParen])
  | left {os ls rs e d} (operator : Operator) (before : Opened files os ls) (hg : AtGroup os)
      (operand : Derives files .expression rs e d) :
      Opened files (.left e operator :: os) (ls ++ rs ++ [operator.lexeme])

/-- `Reached files s ls`: `s` tells what `ls` has left to be completed. -/
inductive Reached (files : Files) : State → List Lexeme → Prop
  | primary {os ls} (h : Opened files os ls) : Reached files ⟨.primary, os⟩ ls
  | afterHandle {os ls word} (h : Opened files os ls) :
      Reached files ⟨.afterHandle word, os⟩ (ls ++ [.bareword word])
  | command {os ls word} (h : Opened files os ls) :
      Reached files ⟨.command word, os⟩ (ls ++ [.bareword word, .dot])
  | list {os ls word} (h : Opened files os ls) :
      Reached files ⟨.list word, os⟩ (ls ++ [.bareword word, .slash])
  | firstMember {os ls} (h : Opened files os ls) :
      Reached files ⟨.firstMember, os⟩ (ls ++ [.openBrace])
  | afterMember {os ls read} (h : Opened files os ls) (ne : read ≠ []) :
      Reached files ⟨.afterMember read, os⟩ (ls ++ .openBrace :: Lexeme.listed read.reverse)
  | member {os ls read} (h : Opened files os ls) (ne : read ≠ []) :
      Reached files ⟨.member read, os⟩
        (ls ++ .openBrace :: Lexeme.listed read.reverse ++ [.comma])
  | operator {os ls rs e d} (h : Opened files os ls) (hg : AtGroup os)
      (operand : Derives files .expression rs e d) : Reached files ⟨.operator e, os⟩ (ls ++ rs)

theorem reached_complete {os : List Opening} {ls rs : List Lexeme} {e : Expr} {d : Nat}
    (h : Opened files os ls) (he : Derives files .primary rs e d) :
    Reached files (.complete e os) (ls ++ rs) := by
  induction h generalizing rs e d with
  | nil => exact .operator .nil trivial (.operand he)
  | tilde before ih =>
    rw [List.append_assoc]
    exact ih (.tilde he)
  | paren before => exact .operator (.paren before) trivial (.operand he)
  | left operator before hg operand =>
    rw [List.append_assoc, List.append_assoc]
    exact .operator before hg (.binary operator operand he)

theorem derives_of_command {sourceOf : String → Source} {handle word : String}
    (h : command? word = some sourceOf) :
    Derives files .primary [.bareword handle, .dot, .bareword word]
      (.source (sourceOf handle)) 0 := by
  unfold command? at h
  split at h
  · next hw => cases h; exact .followers hw
  · split at h
    · next hw => cases h; exact .following hw
    · cases h

theorem Reached.step {s next : State} {ls : List Lexeme} {l : Lexeme} (h : Reached files s ls)
    (step : Step files s l next) : Reached files next (ls ++ [l]) := by
  cases step with
  | tilde => cases h with | primary h => exact .primary (.tilde h)
  | paren => cases h with | primary h => exact .primary (.paren h)
  | handle => cases h with | primary h => exact .afterHandle h
  | file hr =>
    obtain ⟨text, ht, valid, rfl⟩ := HandleFile.read_eq_ok_iff.1 hr
    cases h with | primary h => exact reached_complete h (.file ht valid)
  | openSet => cases h with | primary h => exact .firstMember h
  | dot => cases h with | afterHandle h => simpa using Reached.command h
  | slash => cases h with | afterHandle h => simpa using Reached.list h
  | command hc =>
    cases h with
    | command h => simpa using reached_complete h (derives_of_command hc)
  | list => cases h with | list h => simpa using reached_complete h .members
  | emptySet => cases h with | firstMember h => simpa using reached_complete h (.set [])
  | @first _ word =>
    cases h with
    | firstMember h =>
      have hm : Reached files ⟨.afterMember [word], _⟩ _ := .afterMember h (by simp)
      simpa [Lexeme.listed] using hm
  | comma => cases h with | afterMember h ne => exact .member h ne
  | @member _ read word =>
    cases h with
    | member h ne =>
      have hl := Lexeme.listed_concat (List.reverse_ne_nil_iff.2 ne) word
      have hm : Reached files ⟨.afterMember (word :: read), _⟩ _ := .afterMember h (by simp)
      simpa [hl] using hm
  | @closeSet _ read =>
    cases h with
    | afterMember h ne => simpa using reached_complete h (.set read.reverse)
  | inter => cases h with | operator h hg operand => exact .primary (.left .inter h hg operand)
  | union => cases h with | operator h hg operand => exact .primary (.left .union h hg operand)
  | closeParen =>
    cases h with
    | operator h hg operand =>
      cases h with
      | paren before => simpa using reached_complete before (.paren operand)

theorem Reached.runs {s t : State} {ls rs : List Lexeme} {peak : Nat} (h : Reached files s ls)
    (run : Runs files s rs t peak) : Reached files t (ls ++ rs) := by
  induction run generalizing ls with
  | nil => simpa using h
  | cons step rest ih => simpa using ih (h.step step)

/-- An expression is derived with the greatest depth of the run that reads it. -/
theorem derives_iff_runs {ls : List Lexeme} {e : Expr} {d : Nat} :
    Derives files .expression ls e d ↔ Runs files .start ls ⟨.operator e, []⟩ d := by
  constructor
  · intro h
    simpa [Part.completed, State.start] using h.runs [] trivial
  · intro h
    have hr := (Reached.primary .nil).runs h
    cases hr with
    | @operator _ before rs _ d' hb hg operand =>
      cases hb
      have hd := operand.runs [] trivial
      obtain rfl : d' = d := by simpa using (hd.unique h).2
      exact operand

theorem Derives.unique {ls : List Lexeme} {e e' : Expr} {d d' : Nat}
    (h : Derives files .expression ls e d) (h' : Derives files .expression ls e' d') :
    e = e' ∧ d = d' := by
  obtain ⟨ht, hd⟩ := (derives_iff_runs.1 h).unique (derives_iff_runs.1 h')
  cases ht
  exact ⟨rfl, hd⟩

theorem finish_eq_ok_iff {s : State} {t : Token} {e : Expr} :
    s.finish t = .ok e ↔ s = ⟨.operator e, []⟩ := by
  obtain ⟨place, os⟩ := s
  unfold State.finish
  split
  · simp_all
  · next hno =>
    constructor
    · intro h
      cases h
    · intro h
      cases h
      exact (hno e rfl rfl).elim

theorem read_of_scan {source : String} {tokens : List Token} (h : Token.scan source = .ok tokens)
    (e : Expr) :
    read files source = .ok e ↔ State.start.run files tokens = .ok ⟨.operator e, []⟩ := by
  unfold read
  rw [h]
  dsimp only
  cases hs : State.start.run files tokens with
  | error cause => simp
  | ok s => simp [finish_eq_ok_iff]

/-- A text that is cut into tokens reads as the tree that they derive. -/
theorem read_of_scan_iff {source : String} {tokens : List Token}
    (h : Token.scan source = .ok tokens) (e : Expr) :
    read files source = .ok e ↔
      ∃ d ≤ maxNesting, Derives files .expression (tokens.map Token.lexeme) e d := by
  have hs : State.start.depth ≤ maxNesting := Nat.zero_le _
  simp only [read_of_scan h, run_eq_ok_iff hs, derives_iff_runs]

theorem read_eq_ok_iff {source : String} {e : Expr} :
    read files source = .ok e ↔ ∃ tokens d, Token.scan source = .ok tokens ∧
      Derives files .expression (tokens.map Token.lexeme) e d ∧ d ≤ maxNesting := by
  cases h : Token.scan source with
  | error cause => simp [read, h]
  | ok tokens => simp [read_of_scan_iff h, and_comm]

theorem read_refused {source : String} {tokens : List Token} {e : Expr} {d : Nat}
    (h : Token.scan source = .ok tokens)
    (hd : Derives files .expression (tokens.map Token.lexeme) e d) (hm : maxNesting < d) :
    ∃ t ∈ tokens, (t.lexeme = .tilde ∨ t.lexeme = .openParen) ∧
      read files source = refuse s!"at most {maxNesting} nested '~' or '('" t := by
  obtain ⟨t, ht, hl, hr⟩ := (derives_iff_runs.1 hd).refused (Nat.zero_le _) hm
  refine ⟨t, ht, hl, ?_⟩
  unfold read
  rw [h]
  dsimp only
  rw [hr]
  rfl

theorem stream_eq_ok_iff {source : String} {tokens : List Token} :
    Token.stream source = .ok (tokens ++ [Token.endOf source]) ↔
      Token.scan source = .ok tokens := by
  unfold Token.stream
  cases Token.scan source <;> simp [Except.map]

/-- A stream ends behind the tokens of its text. -/
theorem exists_scan_of_stream {source : String} {stream : List Token}
    (h : Token.stream source = .ok stream) :
    ∃ tokens, Token.scan source = .ok tokens ∧ tokens ++ [Token.endOf source] = stream := by
  unfold Token.stream at h
  cases hscan : Token.scan source with
  | error cause => rw [hscan] at h; cases h
  | ok tokens =>
    rw [hscan] at h
    exact ⟨tokens, rfl, Except.ok.inj h⟩

/-- Reading accepts what the grammar derives with at most `maxNesting` openings around a place.
There is at most one derivation to find, and a text whose derivation goes deeper is refused at an
opening, whatever openings these are and wherever they stand. -/
theorem read_exactly_grammar (files : Files) (source : String) :
    (∀ e, read files source = .ok e ↔ ∃ tokens d,
      Token.stream source = .ok (tokens ++ [Token.endOf source]) ∧
        Derives files .expression (tokens.map Token.lexeme) e d ∧ d ≤ maxNesting) ∧
    (∀ ls e e' d d', Derives files .expression ls e d → Derives files .expression ls e' d' →
      e = e' ∧ d = d') ∧
    (∀ tokens e d, Token.stream source = .ok (tokens ++ [Token.endOf source]) →
      Derives files .expression (tokens.map Token.lexeme) e d → maxNesting < d →
        ∃ t ∈ tokens, (t.lexeme = .tilde ∨ t.lexeme = .openParen) ∧
          read files source = .error (.unexpectedToken
            s!"at most {maxNesting} nested '~' or '('" t.lexeme.found t.position)) := by
  refine ⟨?_, ?_, ?_⟩
  · intro e
    simp only [read_eq_ok_iff, stream_eq_ok_iff]
  · intro ls e e' d d' h h'
    exact h.unique h'
  · intro tokens e d ht hd hm
    exact read_refused (stream_eq_ok_iff.1 ht) hd hm

end Expr

end AccountGroups
