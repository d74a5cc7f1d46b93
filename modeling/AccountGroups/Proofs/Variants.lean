import AccountGroups.Proofs.Lowercase
import AccountGroups.Proofs.Refusal

/-!
# Texts that differ in gaps and letter case

Two texts whose tokens are the same but for the case of letters are read alike. Only a bareword
behind a slash keeps its case, as it names a list. Reading both texts goes through states that hold
the same handles up to the case of letters, so that both texts have the same tree or fail at the
same token.
-/

namespace AccountGroups

/-- Equal but for the case of letters in a bareword. -/
inductive Lexeme.Like : Lexeme → Lexeme → Prop
  | same (l : Lexeme) : Like l l
  | word {v w : String} (h : Text.sameLetters v w = true) : Like (.bareword v) (.bareword w)

namespace Token

/-- The same tokens wherever they stand, but for the case of letters in barewords; behind a slash a
bareword has its letters in the same case too. -/
structure Alike (ts us : List Token) : Prop where
  length : ts.length = us.length
  like : ∀ (k : Nat) (t u : Token), ts[k]? = some t → us[k]? = some u → t.lexeme.Like u.lexeme
  list : ∀ (k : Nat) (s t u : Token), ts[k]? = some s → s.lexeme = .slash →
    ts[k + 1]? = some t → us[k + 1]? = some u → t.lexeme = u.lexeme

namespace Alike

variable {t u : Token} {ts us : List Token}

theorem nil : Alike [] [] where
  length := rfl
  like _ _ _ ht := by cases ht
  list _ _ _ _ hs := by cases hs

theorem cons (h : t.lexeme.Like u.lexeme) (hts : Alike ts us)
    (hlist : t.lexeme = .slash → ∀ a b, ts[0]? = some a → us[0]? = some b → a.lexeme = b.lexeme) :
    Alike (t :: ts) (u :: us) where
  length := congrArg Nat.succ hts.length
  like k a b ha hb := by
    cases k with
    | zero =>
      cases ha
      cases hb
      exact h
    | succ k => exact hts.like k a b ha hb
  list k s a b hs hslash ha hb := by
    cases k with
    | zero =>
      cases hs
      exact hlist hslash a b ha hb
    | succ k => exact hts.list k s a b hs hslash ha hb

theorem head (h : Alike (t :: ts) (u :: us)) : t.lexeme.Like u.lexeme := h.like 0 t u rfl rfl

theorem tail (h : Alike (t :: ts) (u :: us)) : Alike ts us where
  length := Nat.succ.inj h.length
  like k := h.like (k + 1)
  list k := h.list (k + 1)

theorem of_concat (h : Alike (ts ++ [t]) (us ++ [u])) : Alike ts us where
  length := by simpa using h.length
  like k a b ha hb := by
    refine h.like k a b ?_ ?_
    · exact List.getElem?_append_left (List.getElem?_eq_some_iff.1 ha).1 ▸ ha
    · exact List.getElem?_append_left (List.getElem?_eq_some_iff.1 hb).1 ▸ hb
  list k s a b hs hslash ha hb := by
    refine h.list k s a b ?_ hslash ?_ ?_
    · exact List.getElem?_append_left (List.getElem?_eq_some_iff.1 hs).1 ▸ hs
    · exact List.getElem?_append_left (List.getElem?_eq_some_iff.1 ha).1 ▸ ha
    · exact List.getElem?_append_left (List.getElem?_eq_some_iff.1 hb).1 ▸ hb

end Alike

end Token

/-- The barewords behind slashes. -/
def Lexeme.listNames : List Lexeme → List String
  | .slash :: .bareword name :: ls => name :: listNames ls
  | _ :: ls => listNames ls
  | [] => []

def Source.listName? : Source → Option String
  | members _ list => some list
  | _ => none

namespace Expr

open Token

/-- The names of lists in a tree from left to right. -/
def listNames (e : Expr) : List String := e.sources.filterMap Source.listName?

variable {files : Files}

/-- A list has the name that is written behind its slash. -/
theorem Derives.listNames_eq {part : Part} {ls : List Lexeme} {e : Expr} {d : Nat}
    (h : Derives files part ls e d) (rest : List Lexeme) :
    Lexeme.listNames (ls ++ rest) = e.listNames ++ Lexeme.listNames rest := by
  induction h generalizing rest with
  | followers | following | members | file => rfl
  | set handles =>
    have hmore : ∀ words : List String, Lexeme.listNames
        ((words.flatMap fun w => [.comma, .bareword w]) ++ .closeBrace :: rest) =
          Lexeme.listNames rest := by
      intro words
      induction words with
      | nil => rfl
      | cons w words ih => simpa [Lexeme.listNames] using ih
    have hnone : (source (.ofHandles handles)).listNames = [] := rfl
    rw [hnone]
    cases handles with
    | nil => rfl
    | cons w words => simpa [Lexeme.listed, Lexeme.listNames] using hmore words
  | tilde inner ih => exact ih rest
  | paren inner ih => simpa [Lexeme.listNames] using ih (.closeParen :: rest)
  | operand inner ih => exact ih rest
  | @binary ls rs l r d d' operator left right ihl ihr =>
    have hoperator (ms : List Lexeme) :
        Lexeme.listNames (operator.lexeme :: ms) = Lexeme.listNames ms := by
      cases operator <;> rfl
    have happly : (operator.apply l r).listNames = l.listNames ++ r.listNames := by
      cases operator <;> exact List.filterMap_append
    rw [List.append_assoc, List.cons_append, ihl, hoperator, ihr, happly, List.append_assoc]

/-- The same place, and the same words in lowercase, since sources hold handles in lowercase. -/
inductive Place.Like : Place → Place → Prop
  | primary : Like .primary .primary
  | afterHandle {v w} (h : Text.lowercase v = Text.lowercase w) :
      Like (.afterHandle v) (.afterHandle w)
  | command {v w} (h : Text.lowercase v = Text.lowercase w) : Like (.command v) (.command w)
  | list {v w} (h : Text.lowercase v = Text.lowercase w) : Like (.list v) (.list w)
  | firstMember : Like .firstMember .firstMember
  | afterMember {vs ws} (h : vs.map Text.lowercase = ws.map Text.lowercase) :
      Like (.afterMember vs) (.afterMember ws)
  | member {vs ws} (h : vs.map Text.lowercase = ws.map Text.lowercase) :
      Like (.member vs) (.member ws)
  | operator (e : Expr) : Like (.operator e) (.operator e)

/-- States at like places with the same openings. -/
inductive State.Like : State → State → Prop
  | mk {p q : Place} (os : List Opening) (h : p.Like q) : Like ⟨p, os⟩ ⟨q, os⟩

/-- Failures at the tokens `t` and `u` with the same complaint about each of them. -/
inductive SameFault (files : Files) (t u : Token) : ExprError → ExprError → Prop
  | unexpected (expected : String) :
      SameFault files t u (.unexpectedToken expected t.lexeme.found t.position)
        (.unexpectedToken expected u.lexeme.found u.position)
  | unknown {v w : String} (ht : t.lexeme = .bareword v) (hu : u.lexeme = .bareword w) :
      SameFault files t u (.unknownCommand v t.position) (.unknownCommand w u.position)
  | file {path : String} {cause : ExprError} (ht : t.lexeme = .file path)
      (hu : u.lexeme = .file path) (h : HandleFile.read files path = .error cause) :
      SameFault files t u cause cause

theorem SameFault.kind_eq {t u : Token} {cause cause' : ExprError}
    (h : SameFault files t u cause cause') : cause.kind = cause'.kind := by
  cases h <;> rfl

/-- What one token leads to in like states: like states again, or the same complaint. The name of a
list is expected behind a slash only, where both texts have the same bareword. -/
def StepsAlike (files : Files) (s s' : State) (t u : Token) : Prop :=
  (∃ next next', s.step files t = .ok next ∧ s'.step files u = .ok next' ∧ next.Like next' ∧
      ∀ owner, next.place = .list owner → t.lexeme = .slash) ∨
    ∃ cause cause', s.step files t = .error cause ∧ s'.step files u = .error cause' ∧
      SameFault files t u cause cause'

theorem StepsAlike.place {s s' : State} {t u : Token} {p q : Place} (os : List Opening)
    (hs : s.step files t = .ok ⟨p, os⟩) (hs' : s'.step files u = .ok ⟨q, os⟩) (h : p.Like q)
    (hlist : ∀ owner, p = .list owner → t.lexeme = .slash) : StepsAlike files s s' t u :=
  .inl ⟨_, _, hs, hs', .mk os h, hlist⟩

theorem StepsAlike.complete {s s' : State} {t u : Token} {e e' : Expr} (os : List Opening)
    (hs : s.step files t = .ok (.complete e os)) (hs' : s'.step files u = .ok (.complete e' os))
    (he : e = e') : StepsAlike files s s' t u := by
  subst he
  obtain ⟨e', os', hc, -⟩ := complete_cases e os
  rw [hc] at hs hs'
  exact .place os' hs hs' (.operator e') fun owner h => by cases h

theorem StepsAlike.refuse {s s' : State} {t u : Token} {expected : String}
    (hs : s.step files t = Expr.refuse expected t)
    (hs' : s'.step files u = Expr.refuse expected u) : StepsAlike files s s' t u :=
  .inr ⟨_, _, hs, hs', .unexpected expected⟩

theorem StepsAlike.nest {s s' : State} {t u : Token} {opening : Opening} {os : List Opening}
    (hs : s.step files t = (⟨.primary, os⟩ : State).nest opening t)
    (hs' : s'.step files u = (⟨.primary, os⟩ : State).nest opening u) :
    StepsAlike files s s' t u := by
  by_cases hd : depthOf os < maxNesting
  · refine .place (opening :: os) (hs.trans (if_pos hd)) (hs'.trans (if_pos hd)) .primary ?_
    exact fun owner h => by cases h
  · exact .refuse (hs.trans (if_neg hd)) (hs'.trans (if_neg hd))

theorem command?_congr {v w : String} (h : Text.sameLetters v w = true) :
    command? v = command? w := by
  have hword (word : String) : Text.sameLetters word v = Text.sameLetters word w := by
    have heq : v.toList.map Char.toLower = w.toList.map Char.toLower := eq_of_beq h
    rw [Text.sameLetters, Text.sameLetters, heq]
  rw [command?, command?, hword, hword]

theorem source_of_command {word : String} {sourceOf : String → Source} {v w : String}
    (hc : command? word = some sourceOf) (h : Text.lowercase v = Text.lowercase w) :
    sourceOf v = sourceOf w := by
  unfold command? at hc
  split at hc
  · cases hc
    exact congrArg Source.followers h
  · split at hc
    · cases hc
      exact congrArg Source.following h
    · cases hc

/-- A bareword with its letters in another case. -/
theorem stepsAlike_word {p q : Place} {v w : String} {i j : Nat} (os : List Opening)
    (hs : p.Like q) (h : Text.sameLetters v w = true)
    (hlist : ∀ owner, p = .list owner → v = w) :
    StepsAlike files ⟨p, os⟩ ⟨q, os⟩ ⟨.bareword v, i⟩ ⟨.bareword w, j⟩ := by
  have hlower := Text.lowercase_eq_of_sameLetters h
  cases hs with
  | primary => exact .place os rfl rfl (.afterHandle hlower) (by simp)
  | @command handle handle' hc =>
    have hcommand := command?_congr h
    cases hv : command? v with
    | none =>
      refine .inr ⟨.unknownCommand v i, .unknownCommand w j, ?_, ?_, .unknown rfl rfl⟩
      · simp only [State.step, hv]
      · simp only [State.step, ← hcommand, hv]
    | some sourceOf =>
      have hsource := congrArg Expr.source (source_of_command hv hc)
      refine .complete os ?_ ?_ hsource
      · simp only [State.step, hv]
      · simp only [State.step, ← hcommand, hv]
  | list hc =>
    obtain rfl := hlist _ rfl
    exact .complete os rfl rfl (by rw [Source.membersOf, Source.membersOf, hc])
  | firstMember => exact .place os rfl rfl (.afterMember (by simp [hlower])) (by simp)
  | member hc => exact .place os rfl rfl (.afterMember (by simp [hlower, hc])) (by simp)
  | afterHandle | afterMember | operator => exact .refuse rfl rfl

theorem ofHandles_congr {vs ws : List String}
    (h : vs.map Text.lowercase = ws.map Text.lowercase) :
    Source.ofHandles vs = Source.ofHandles ws := by
  rw [Source.ofHandles, Source.ofHandles, HandleSet.ofHandles, HandleSet.ofHandles, h]

/-- A lexeme that stands in both texts. -/
theorem stepsAlike_same {p q : Place} {l : Lexeme} {i j : Nat} (os : List Opening)
    (hs : p.Like q) : StepsAlike files ⟨p, os⟩ ⟨q, os⟩ ⟨l, i⟩ ⟨l, j⟩ := by
  cases l with
  | bareword word => exact stepsAlike_word os hs (beq_self_eq_true _) fun _ _ => rfl
  | tilde | openParen =>
    cases hs with
    | primary => exact .nest rfl rfl
    | _ => exact .refuse rfl rfl
  | openBrace =>
    cases hs with
    | primary => exact .place os rfl rfl .firstMember (by simp)
    | _ => exact .refuse rfl rfl
  | file path =>
    cases hs with
    | primary =>
      cases hr : HandleFile.read files path with
      | ok handles =>
        have hstep (k : Nat) : State.step files ⟨.primary, os⟩ ⟨.file path, k⟩ =
            .ok (.complete (.source (.ofHandles handles)) os) := by
          simp only [State.step, hr, Except.map]
        exact .complete os (hstep i) (hstep j) rfl
      | error cause =>
        have hstep (k : Nat) : State.step files ⟨.primary, os⟩ ⟨.file path, k⟩ = .error cause := by
          simp only [State.step, hr, Except.map]
        exact .inr ⟨cause, cause, hstep i, hstep j, .file rfl rfl hr⟩
    | _ => exact .refuse rfl rfl
  | dot =>
    cases hs with
    | afterHandle h => exact .place os rfl rfl (.command h) (by simp)
    | _ => exact .refuse rfl rfl
  | slash =>
    cases hs with
    | afterHandle h => exact .place os rfl rfl (.list h) fun _ _ => rfl
    | _ => exact .refuse rfl rfl
  | comma =>
    cases hs with
    | afterMember h => exact .place os rfl rfl (.member h) (by simp)
    | _ => exact .refuse rfl rfl
  | closeBrace =>
    cases hs with
    | firstMember => exact .complete os rfl rfl rfl
    | afterMember h =>
      refine .complete os rfl rfl (congrArg Expr.source (ofHandles_congr ?_))
      rw [List.map_reverse, List.map_reverse, h]
    | _ => exact .refuse rfl rfl
  | ampersand | bar =>
    cases hs with
    | operator e => exact .place _ rfl rfl .primary (by simp)
    | _ => exact .refuse rfl rfl
  | closeParen =>
    cases hs with
    | operator e =>
      cases os with
      | nil => exact .refuse rfl rfl
      | cons o os =>
        cases o with
        | paren => exact .complete os rfl rfl rfl
        | tilde | left => exact .refuse rfl rfl
    | _ => exact .refuse rfl rfl
  | endOfInput => cases hs <;> exact .refuse rfl rfl

/-- One step of two readings side by side. -/
theorem State.Like.step (files : Files) {s s' : State} {t u : Token} (hs : s.Like s')
    (h : t.lexeme.Like u.lexeme) (hlist : ∀ owner, s.place = .list owner → t.lexeme = u.lexeme) :
    StepsAlike files s s' t u := by
  obtain ⟨os, hplace⟩ := hs
  obtain ⟨l, i⟩ := t
  obtain ⟨m, j⟩ := u
  cases h with
  | same => exact stepsAlike_same os hplace
  | word hvw => exact stepsAlike_word os hplace hvw fun owner ho => by cases hlist owner ho; rfl

theorem State.run_cons_error {s : State} {t : Token} {ts : List Token} {cause : ExprError}
    (h : s.step files t = .error cause) : s.run files (t :: ts) = .error cause := by
  rw [State.run, h]

theorem State.run_cons_ok {s next : State} {t : Token} {ts : List Token}
    (h : s.step files t = .ok next) : s.run files (t :: ts) = next.run files ts := by
  rw [State.run, h]

/-- Two readings side by side come to like states or fail at tokens of the same index. Where a list
is expected the next two tokens are the same, which every step keeps, as a list is expected behind a
slash alone. -/
theorem State.Like.run (files : Files) {s s' : State} {ts us : List Token} (hs : s.Like s')
    (h : Alike ts us)
    (hlist : ∀ owner, s.place = .list owner → ∀ t u, ts.head? = some t → us.head? = some u →
      t.lexeme = u.lexeme) :
    (∃ last last', s.run files ts = .ok last ∧ s'.run files us = .ok last' ∧ last.Like last') ∨
      ∃ (k : Nat) (t u : Token) (cause cause' : ExprError), ts[k]? = some t ∧ us[k]? = some u ∧
        s.run files ts = .error cause ∧ s'.run files us = .error cause' ∧
        SameFault files t u cause cause' := by
  induction ts generalizing s s' us with
  | nil =>
    obtain rfl : us = [] := List.eq_nil_of_length_eq_zero h.length.symm
    exact .inl ⟨s, s', rfl, rfl, hs⟩
  | cons t ts ih =>
    obtain ⟨u, us, rfl⟩ : ∃ u us', us = u :: us' := by
      cases us with
      | nil => cases h.length
      | cons u us => exact ⟨u, us, rfl⟩
    rcases hs.step files h.head fun owner ho => hlist owner ho t u rfl rfl with
      ⟨next, next', hstep, hstep', hnext, hslash⟩ | ⟨cause, cause', hstep, hstep', hfault⟩
    · rw [run_cons_ok hstep, run_cons_ok hstep']
      have hnextlist : ∀ owner, next.place = .list owner → ∀ a b, ts.head? = some a →
          us.head? = some b → a.lexeme = b.lexeme := by
        intro owner ho a b ha hb
        rw [List.head?_eq_getElem?] at ha hb
        exact h.list 0 t a b rfl (hslash owner ho) ha hb
      rcases ih hnext h.tail hnextlist with hok | ⟨k, a, b, cause, cause', ha, hb, hfail⟩
      · exact .inl hok
      · exact .inr ⟨k + 1, a, b, cause, cause', ha, hb, hfail⟩
    · exact .inr ⟨0, t, u, cause, cause', rfl, rfl, run_cons_error hstep, run_cons_error hstep',
        hfault⟩

theorem State.Like.finish {s s' : State} (hs : s.Like s') (t u : Token) :
    (∃ e, s.finish t = .ok e ∧ s'.finish u = .ok e) ∨
      ∃ expected, s.finish t = refuse expected t ∧ s'.finish u = refuse expected u := by
  obtain ⟨os, hplace⟩ := hs
  cases hplace with
  | operator e =>
    cases os with
    | nil => exact .inl ⟨e, rfl, rfl⟩
    | cons o os => exact .inr ⟨_, rfl, rfl⟩
  | _ => exact .inr ⟨_, rfl, rfl⟩

theorem read_of_run {source : String} {tokens : List Token} {s : State}
    (hscan : scan source = .ok tokens) (hrun : State.start.run files tokens = .ok s) :
    read files source = s.finish (endOf source) := by
  simp only [read, hscan, hrun]

theorem read_of_run_error {source : String} {tokens : List Token} {cause : ExprError}
    (hscan : scan source = .ok tokens) (hrun : State.start.run files tokens = .error cause) :
    read files source = .error cause := by
  simp only [read, hscan, hrun]

/-- A tree that is read has the names of lists that stand behind slashes in the text. -/
theorem listNames_of_read {source : String} {tokens : List Token} {e : Expr}
    (hscan : scan source = .ok tokens) (h : read files source = .ok e) :
    e.listNames = Lexeme.listNames (tokens.map Token.lexeme ++ [.endOfInput]) := by
  obtain ⟨d, -, he⟩ := (read_of_scan_iff hscan e).1 h
  rw [he.listNames_eq]
  exact (List.append_nil _).symm

/-- Two texts whose tokens are the same but for gaps and for letter case outside the names of lists
have the same tree, with the names of lists as they are written, or fail in the same way: a refused
token and an unknown command have the same index in both texts, and a file that cannot be read is
reported in the same words. -/
theorem read_alike (files : Files) {A B : String} {ts us : List Token}
    (hA : stream A = .ok ts) (hB : stream B = .ok us) (h : Alike ts us) :
    (∃ e, read files A = .ok e ∧ read files B = .ok e ∧
      e.listNames = Lexeme.listNames (ts.map Token.lexeme)) ∨
    ∃ (k : Nat) (t u : Token) (cause cause' : ExprError), ts[k]? = some t ∧ us[k]? = some u ∧
      read files A = .error cause ∧ read files B = .error cause' ∧
      cause.kind = cause'.kind ∧ SameFault files t u cause cause' := by
  obtain ⟨ts, hscan, rfl⟩ := exists_scan_of_stream hA
  obtain ⟨us, hscan', rfl⟩ := exists_scan_of_stream hB
  have hlength : ts.length = us.length := h.of_concat.length
  have hstart : State.start.Like State.start := .mk [] .primary
  rcases hstart.run files h.of_concat (fun owner ho => by cases ho) with
    ⟨last, last', hrun, hrun', hlast⟩ | ⟨k, t, u, cause, cause', ht, hu, hrun, hrun', hfault⟩
  · have hread := read_of_run hscan hrun
    have hread' := read_of_run hscan' hrun'
    rcases hlast.finish (endOf A) (endOf B) with ⟨e, he, he'⟩ | ⟨expected, hfail, hfail'⟩
    · refine .inl ⟨e, hread.trans he, hread'.trans he', ?_⟩
      rw [List.map_append]
      exact listNames_of_read hscan (hread.trans he)
    · refine .inr ⟨ts.length, endOf A, endOf B, _, _, by simp, by simp [hlength],
        hread.trans hfail, hread'.trans hfail', rfl, .unexpected expected⟩
  · have hk : k < ts.length := (List.getElem?_eq_some_iff.1 ht).1
    refine .inr ⟨k, t, u, cause, cause', ?_, ?_, read_of_run_error hscan hrun,
      read_of_run_error hscan' hrun', hfault.kind_eq, hfault⟩
    · rw [List.getElem?_append_left hk, ht]
    · rw [List.getElem?_append_left (hlength ▸ hk), hu]

/-- A word behind a whole operand, in both letter cases and behind different gaps. -/
theorem read_alike_raised :
    let ts : List Token := [⟨.bareword "a", 0⟩, ⟨.slash, 1⟩, ⟨.bareword "T", 2⟩,
      ⟨.bareword "x", 4⟩, ⟨.endOfInput, 5⟩]
    let us : List Token := [⟨.bareword "A", 0⟩, ⟨.slash, 1⟩, ⟨.bareword "T", 3⟩,
      ⟨.bareword "X", 5⟩, ⟨.endOfInput, 6⟩]
    stream "a/T x" = .ok ts ∧ stream "A/ T\nX" = .ok us ∧ Alike ts us ∧
      ∃ (k : Nat) (t u : Token) (cause cause' : ExprError), ts[k]? = some t ∧ us[k]? = some u ∧
        read .error "a/T x" = .error cause ∧ read .error "A/ T\nX" = .error cause' ∧
        SameFault .error t u cause cause' := by
  intro ts us
  have hA : stream "a/T x" = .ok ts := by decide
  have hB : stream "A/ T\nX" = .ok us := by decide
  have h : Alike ts us := by
    refine .cons (.word rfl) (.cons (.same _) (.cons (.same _) (.cons (.word rfl)
      (.cons (.same _) .nil nofun) nofun) nofun) ?_) nofun
    intro _ a b ha hb
    cases ha
    cases hb
    rfl
  rcases read_alike .error hA hB h with
    ⟨e, he, -⟩ | ⟨k, t, u, cause, cause', ht, hu, hread, hread', -, hfault⟩
  · have hfail : read .error "a/T x" = .error (.unexpectedToken "end of input" "'x'" 4) := by
      decide
    cases he.symm.trans hfail
  · exact ⟨hA, hB, h, k, t, u, cause, cause', ht, hu, hread, hread', hfault⟩

end Expr

end AccountGroups
