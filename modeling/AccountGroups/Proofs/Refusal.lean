import AccountGroups.Proofs.Grammar
import AccountGroups.Proofs.Prefixes
import Mathlib.Data.List.Induction

/-!
# Refused tokens

Whatever has been read can be completed to an expression without further nesting. So the text
before a refused token is the beginning of an expression, and since the state alone decides about
the next token, no text that goes on with this token is an expression.
-/

namespace AccountGroups.Expr

open Token

variable {files : Files}

theorem complete_cases (e : Expr) (os : List Opening) :
    ∃ e' os', State.complete e os = ⟨.operator e', os'⟩ ∧ os'.length ≤ os.length := by
  induction os generalizing e with
  | nil => exact ⟨e, [], rfl, Nat.le_refl _⟩
  | cons o os ih =>
    cases o with
    | paren => exact ⟨e, _, rfl, Nat.le_refl _⟩
    | left operand operator => exact ⟨operator.apply operand e, os, rfl, Nat.le_succ _⟩
    | tilde =>
      obtain ⟨e', os', h, hle⟩ := ih (.compl e)
      exact ⟨e', os', h, Nat.le_succ_of_le hle⟩

/-- After a whole operand only parentheses are open. -/
theorem Reached.closes {e : Expr} {os : List Opening} {ls : List Lexeme}
    (h : Reached files ⟨.operator e, os⟩ ls) :
    ∃ n e', Runs files ⟨.operator e, os⟩ (List.replicate n .closeParen) ⟨.operator e', []⟩
      (depthOf os) := by
  induction hn : os.length using Nat.strongRecOn generalizing e os ls with
  | ind n ih =>
    cases os with
    | nil => exact ⟨0, e, .nil⟩
    | cons o os =>
      obtain rfl : o = .paren := by
        cases h with
        | operator opened hg operand =>
          cases o with
          | paren => rfl
          | tilde | left => exact hg.elim
      obtain ⟨e', os', hc, hle⟩ := complete_cases e os
      have hstep : Step files ⟨.operator e, .paren :: os⟩ .closeParen ⟨.operator e', os'⟩ :=
        hc ▸ .closeParen
      have hlt : os'.length < n := by
        rw [List.length_cons] at hn
        omega
      obtain ⟨m, last, hruns⟩ := ih _ hlt (h.step hstep) rfl
      have hd : depthOf os' ≤ depthOf os := by
        have hdepth := State.depth_complete_le e os
        rwa [hc, State.depth_mk] at hdepth
      refine ⟨m + 1, last, (Runs.cons hstep hruns).of_eq ?_⟩
      rw [State.depth_mk, depthOf_paren]
      omega

/-- Lexemes that complete the operand of which this is a place. -/
def Place.rest : Place → List Lexeme
  | .primary => [.openBrace, .closeBrace]
  | .afterHandle _ => [.dot, .bareword "followers"]
  | .command _ | .list _ => [.bareword "followers"]
  | .firstMember | .afterMember _ => [.closeBrace]
  | .member _ => [.bareword "followers", .closeBrace]
  | .operator _ => []

/-- The last token of an operand leads to a place after an operand. -/
theorem Step.runs_of_complete {place : Place} {os : List Opening} {l : Lexeme} {e : Expr}
    (step : Step files ⟨place, os⟩ l (.complete e os)) :
    ∃ e' os', Runs files ⟨place, os⟩ [l] ⟨.operator e', os'⟩ (depthOf os) := by
  obtain ⟨e', os', hc, -⟩ := complete_cases e os
  have hd := State.depth_complete_le e os
  rw [hc] at step hd
  exact ⟨e', os', (Runs.cons step .nil).of_eq (Nat.max_eq_left hd)⟩

theorem Step.runs_cons {place next : Place} {os : List Opening} {l : Lexeme} {ls : List Lexeme}
    (step : Step files ⟨place, os⟩ l ⟨next, os⟩)
    (rest : ∃ e os', Runs files ⟨next, os⟩ ls ⟨.operator e, os'⟩ (depthOf os)) :
    ∃ e os', Runs files ⟨place, os⟩ (l :: ls) ⟨.operator e, os'⟩ (depthOf os) := by
  obtain ⟨e, os', h⟩ := rest
  exact ⟨e, os', (Runs.cons step h).of_eq (Nat.max_self _)⟩

theorem exists_runs_rest (files : Files) (place : Place) (os : List Opening) :
    ∃ e os', Runs files ⟨place, os⟩ place.rest ⟨.operator e, os'⟩ (depthOf os) := by
  have hcommand : command? "followers" = some .followersOf := command?_followers (by decide)
  cases place with
  | primary => exact Step.openSet.runs_cons Step.emptySet.runs_of_complete
  | afterHandle handle => exact Step.dot.runs_cons (Step.command hcommand).runs_of_complete
  | command handle => exact (Step.command hcommand).runs_of_complete
  | list owner => exact Step.list.runs_of_complete
  | firstMember => exact Step.emptySet.runs_of_complete
  | afterMember read => exact Step.closeSet.runs_of_complete
  | member read => exact Step.member.runs_cons Step.closeSet.runs_of_complete
  | operator e => exact ⟨e, os, .nil⟩

theorem Runs.depth_last_le {s t : State} {ls : List Lexeme} {peak : Nat}
    (h : Runs files s ls t peak) : t.depth ≤ peak := by
  induction h with
  | nil => exact Nat.le_refl _
  | cons step rest ih => exact Nat.le_trans ih (Nat.le_max_right ..)

/-- Every state of reading can be completed, and no deeper than it is. -/
theorem Reached.completes {s : State} {ls : List Lexeme} (h : Reached files s ls) :
    ∃ n e, Runs files s (s.place.rest ++ List.replicate n .closeParen) ⟨.operator e, []⟩
      s.depth := by
  obtain ⟨place, os⟩ := s
  obtain ⟨e, os', hrest⟩ := exists_runs_rest files place os
  obtain ⟨n, e', hclose⟩ := (h.runs hrest).closes
  have hd : depthOf os' ≤ depthOf os := hrest.depth_last_le
  exact ⟨n, e', (hrest.append hclose).of_eq (Nat.max_eq_left hd)⟩

/-- Marks and barewords are spelled by their texts with gaps between them. -/
theorem exists_shows {ls : List Lexeme}
    (h : ∀ l ∈ ls, (∃ w, IsBareword w ∧ l = .bareword w) ∨ ∃ c, mark? c = some l) :
    ∃ cs, Shows (' ' :: cs) ls := by
  induction ls with
  | nil => exact ⟨[], .gap rfl .nil⟩
  | cons l ls ih =>
    obtain ⟨hl, hls⟩ := List.forall_mem_cons.1 h
    obtain ⟨cs, hcs⟩ := ih hls
    have hends : EndsWord (' ' :: cs) := endsWord_cons.2 rfl
    rcases hl with ⟨w, hw, rfl⟩ | ⟨c, hc⟩
    · exact ⟨_, .gap rfl (.word hw hends hcs)⟩
    · exact ⟨_, .gap rfl (.mark hc hcs)⟩

theorem exists_shows_rest (place : Place) (n : Nat) :
    ∃ cs, Shows (' ' :: cs) (place.rest ++ List.replicate n .closeParen) := by
  have hword : IsBareword "followers" := ⟨by decide, List.all_eq_true.1 (by decide)⟩
  have hrest : ∀ l ∈ place.rest, l = .bareword "followers" ∨ ∃ c, mark? c = some l := by
    have hbrace : ∃ c, mark? c = some .openBrace := ⟨'{', rfl⟩
    have hclose : ∃ c, mark? c = some .closeBrace := ⟨'}', rfl⟩
    have hdot : ∃ c, mark? c = some .dot := ⟨'.', rfl⟩
    cases place <;> simp [Place.rest, hbrace, hclose, hdot]
  apply exists_shows
  intro l hl
  rcases List.mem_append.1 hl with hl | hl
  · rcases hrest l hl with rfl | hmark
    · exact .inl ⟨_, hword, rfl⟩
    · exact .inr hmark
  · exact .inr ⟨')', by rw [List.eq_of_mem_replicate hl]; rfl⟩

/-- A text whose tokens have been accepted so far begins an expression. -/
theorem exists_read_append {before : String} {tokens : List Token} {s : State}
    (spelled : Spelled 0 before.toList tokens) (run : State.start.run files tokens = .ok s) :
    ∃ more e, read files (before ++ more) = .ok e := by
  obtain ⟨peak, hpeak, hrun⟩ := (run_eq_ok_iff (Nat.zero_le _)).1 run
  obtain ⟨n, e, hrest⟩ := ((Reached.primary .nil).runs hrun).completes
  obtain ⟨cs, hcs⟩ := exists_shows_rest s.place n
  obtain ⟨us, hus, hlexemes⟩ := hcs (0 + octets before.toList)
  have hall := spelled.append (endsWord_cons.2 rfl) hus
  have hscan : scan (before ++ String.ofList (' ' :: cs)) = .ok (tokens ++ us) := by
    rw [scan_eq_ok_iff_spelled, String.toList_append, String.toList_ofList]
    exact hall
  refine ⟨String.ofList (' ' :: cs), e, ?_⟩
  rw [read_of_scan hscan, run_eq_ok_iff (Nat.zero_le _), List.map_append, hlexemes]
  have hdepth : s.depth ≤ peak := hrun.depth_last_le
  exact ⟨_, Nat.max_le.2 ⟨hpeak, Nat.le_trans hdepth hpeak⟩, hrun.append hrest⟩

/-- What a token can do, told by its lexeme: it is read, refused, no command, or names a file that
is not one of handles. -/
theorem State.step_cases (files : Files) (s : State) (l : Lexeme) :
    (∃ next, ∀ t : Token, t.lexeme = l → s.step files t = .ok next) ∨
    (∃ expected, ∀ t : Token, t.lexeme = l → s.step files t = refuse expected t) ∨
    (∃ word, l = .bareword word ∧
      ∀ t : Token, t.lexeme = l → s.step files t = .error (.unknownCommand word t.position)) ∨
    ∃ path cause, l = .file path ∧ HandleFile.read files path = .error cause ∧
      ∀ t : Token, t.lexeme = l → s.step files t = .error cause := by
  obtain ⟨place, os⟩ := s
  have hok {next : State}
      (h : ∀ position, State.step files ⟨place, os⟩ ⟨l, position⟩ = .ok next) :
      ∃ next, ∀ t : Token, t.lexeme = l → State.step files ⟨place, os⟩ t = .ok next := by
    refine ⟨next, ?_⟩
    rintro ⟨_, position⟩ rfl
    exact h position
  have hrefuse {expected : String} (h : ∀ position,
      State.step files ⟨place, os⟩ ⟨l, position⟩ = refuse expected ⟨l, position⟩) :
      ∃ expected, ∀ t : Token, t.lexeme = l →
        State.step files ⟨place, os⟩ t = refuse expected t := by
    refine ⟨expected, ?_⟩
    rintro ⟨_, position⟩ rfl
    exact h position
  cases place <;> cases l
  case primary.tilde | primary.openParen =>
    by_cases hd : depthOf os < maxNesting
    · exact .inl (hok fun _ => if_pos hd)
    · exact .inr (.inl (hrefuse fun _ => if_neg hd))
  case primary.file path =>
    cases hr : HandleFile.read files path with
    | ok handles => exact .inl (hok fun _ => by simp only [State.step, hr]; rfl)
    | error cause =>
      refine .inr (.inr (.inr ⟨path, cause, rfl, hr, ?_⟩))
      rintro ⟨_, position⟩ rfl
      simp only [State.step, hr]
      rfl
  case command.bareword handle word =>
    cases hc : command? word with
    | some sourceOf => exact .inl (hok fun _ => by simp only [State.step, hc]; rfl)
    | none =>
      refine .inr (.inr (.inl ⟨word, rfl, ?_⟩))
      rintro ⟨_, position⟩ rfl
      simp only [State.step, hc]
  case operator.closeParen e =>
    cases os with
    | nil => exact .inr (.inl (hrefuse fun _ => rfl))
    | cons o os =>
      cases o with
      | paren => exact .inl (hok fun _ => rfl)
      | tilde | left => exact .inr (.inl (hrefuse fun _ => rfl))
  all_goals first
    | exact .inl (hok fun _ => rfl)
    | exact .inr (.inl (hrefuse fun _ => rfl))

theorem error_of_handles {path : String} {number : Nat} {lines : List (List Char)}
    {cause : ExprError} (h : HandleFile.handles path number lines = .error cause) :
    ∃ line handle, cause = .invalidHandle path line handle := by
  rcases HandleFile.handles_cases path number lines with ⟨-, hok⟩ | ⟨k, line, -, -, -, herror⟩
  · cases h.symm.trans hok
  · cases h.symm.trans herror
    exact ⟨_, _, rfl⟩

theorem error_of_handleFile {path : String} {cause : ExprError}
    (h : HandleFile.read files path = .error cause) :
    (∃ reason, cause = .unreadableFile path reason) ∨
      ∃ line handle, cause = .invalidHandle path line handle := by
  unfold HandleFile.read at h
  split at h
  · cases h
    exact .inl ⟨_, rfl⟩
  · exact .inr (error_of_handles h)

/-- A token with the lexeme `l` is refused in the state, wherever it stands. -/
def State.Refuses (files : Files) (s : State) (l : Lexeme) (expected : String) : Prop :=
  ∀ t : Token, t.lexeme = l → s.step files t = refuse expected t ∧
    (l = .endOfInput → s.finish t = refuse expected t)

theorem State.refuses_of_step {s : State} {t : Token} {expected found : String} {position : Nat}
    (h : s.step files t = .error (.unexpectedToken expected found position))
    (ht : t.lexeme ≠ .endOfInput) :
    s.Refuses files t.lexeme expected ∧ found = t.lexeme.found ∧ position = t.position := by
  rcases s.step_cases files t.lexeme with
    ⟨next, hall⟩ | ⟨expected', hall⟩ | ⟨word, -, hall⟩ | ⟨path, cause, -, hfile, hall⟩
  · rw [hall t rfl] at h
    cases h
  · rw [hall t rfl] at h
    cases h
    exact ⟨fun u hu => ⟨hall u hu, fun hend => (ht hend).elim⟩, rfl, rfl⟩
  · rw [hall t rfl] at h
    cases h
  · rw [hall t rfl] at h
    cases h
    rcases error_of_handleFile hfile with ⟨_, hcause⟩ | ⟨_, _, hcause⟩ <;> cases hcause

theorem State.refuses_of_finish (files : Files) {s : State} {t : Token} {cause : ExprError}
    (ht : t.lexeme = .endOfInput) (h : s.finish t = .error cause) :
    s.Refuses files t.lexeme s.expected ∧
      cause = .unexpectedToken s.expected t.lexeme.found t.position := by
  have hstep : ∀ u : Token, u.lexeme = .endOfInput → s.step files u = refuse s.expected u := by
    obtain ⟨place, os⟩ := s
    rintro ⟨_, position⟩ rfl
    cases place <;> rfl
  have hfinish : ∀ u : Token, s.finish u = refuse s.expected u := by
    intro u
    unfold State.finish at h ⊢
    split at h
    · cases h
    · rfl
  rw [hfinish] at h
  cases h
  exact ⟨fun u hu => ⟨hstep u (hu.trans ht), fun _ => hfinish u⟩, rfl⟩

/-- A run that fails has come to a token at which a step fails. -/
theorem run_error {s : State} {ts : List Token} {cause : ExprError}
    (h : s.run files ts = .error cause) :
    ∃ before t after next, ts = before ++ t :: after ∧ s.run files before = .ok next ∧
      next.step files t = .error cause := by
  induction ts generalizing s with
  | nil => cases h
  | cons t ts ih =>
    cases ht : s.step files t with
    | error e =>
      rw [State.run, ht] at h
      cases h
      exact ⟨[], t, ts, s, rfl, rfl, ht⟩
    | ok next =>
      rw [State.run, ht] at h
      obtain ⟨before, u, after, last, rfl, hrun, hstep⟩ := ih h
      refine ⟨t :: before, u, after, last, rfl, ?_, hstep⟩
      rw [State.run, ht]
      exact hrun

theorem run_of_lexemes {s : State} {ts us : List Token}
    (h : State.start.run files ts = .ok s)
    (hl : us.map Token.lexeme = ts.map Token.lexeme) : State.start.run files us = .ok s := by
  rw [run_eq_ok_iff (Nat.zero_le _)] at h ⊢
  rwa [hl]

/-- A stream is cut at a token of the text, or at its end. -/
theorem stream_cases {source : String} {before after : List Token} {t : Token}
    (h : Token.stream source = .ok (before ++ t :: after)) :
    (t = Token.endOf source ∧ after = [] ∧ Token.scan source = .ok before) ∨
      (t.lexeme ≠ .endOfInput ∧ ∃ rest, after = rest ++ [Token.endOf source] ∧
        Token.scan source = .ok (before ++ t :: rest)) := by
  obtain ⟨tokens, hscan, htokens⟩ := exists_scan_of_stream h
  rcases List.eq_nil_or_concat after with rfl | ⟨rest, last, rfl⟩
  · obtain ⟨rfl, hlast⟩ := List.append_inj' htokens rfl
    exact .inl ⟨(List.cons.inj hlast).1.symm, rfl, hscan⟩
  · rw [List.concat_eq_append] at htokens ⊢
    have hcut : tokens ++ [Token.endOf source] = (before ++ t :: rest) ++ [last] := by
      rw [htokens, List.append_assoc, List.cons_append]
    obtain ⟨rfl, hlast⟩ := List.append_inj' hcut rfl
    obtain rfl := (List.cons.inj hlast).1
    refine .inr ⟨?_, rest, rfl, hscan⟩
    exact (scan_eq_ok_iff_spelled.1 hscan).ne_endOfInput t (by simp)

/-- After the same lexemes the same lexeme is refused. -/
theorem read_of_refuses {source : String} {before after : List Token} {t : Token} {s : State}
    {expected : String} (h : Token.stream source = .ok (before ++ t :: after))
    (run : State.start.run files before = .ok s) (refuses : s.Refuses files t.lexeme expected) :
    read files source = refuse expected t := by
  unfold read
  rcases stream_cases h with ⟨rfl, rfl, hscan⟩ | ⟨-, rest, rfl, hscan⟩
  · rw [hscan]
    dsimp only
    rw [run]
    exact (refuses _ rfl).2 rfl
  · have hrun : State.start.run files (before ++ t :: rest) = refuse expected t := by
      rw [State.run_append, run]
      simp only [Except.bind, State.run, (refuses t rfl).1]
      rfl
    rw [hscan]
    dsimp only
    rw [hrun]
    rfl

/-- A refused token is found by reading: what came before it was accepted. -/
theorem exists_refuses_of_read {source expected found : String} {position : Nat}
    (h : read files source = .error (.unexpectedToken expected found position)) :
    ∃ before t after s, Token.stream source = .ok (before ++ t :: after) ∧
      State.start.run files before = .ok s ∧ s.Refuses files t.lexeme expected ∧
      found = t.lexeme.found ∧ position = t.position := by
  unfold read at h
  cases hscan : Token.scan source with
  | error cause =>
    rw [hscan] at h
    cases h
    obtain ⟨c, q, hcause⟩ := error_of_scanFrom hscan
    cases hcause
  | ok tokens =>
    have hstream : Token.stream source = .ok (tokens ++ [Token.endOf source]) :=
      stream_eq_ok_iff.2 hscan
    rw [hscan] at h
    dsimp only at h
    cases hrun : State.start.run files tokens with
    | error cause =>
      rw [hrun] at h
      cases h
      obtain ⟨before, t, after, s, rfl, hbefore, hstep⟩ := run_error hrun
      have ht : t.lexeme ≠ .endOfInput :=
        (scan_eq_ok_iff_spelled.1 hscan).ne_endOfInput t (by simp)
      obtain ⟨refuses, hfound, hposition⟩ := State.refuses_of_step hstep ht
      rw [List.append_assoc, List.cons_append] at hstream
      exact ⟨before, t, _, s, hstream, hbefore, refuses, hfound, hposition⟩
    | ok s =>
      rw [hrun] at h
      obtain ⟨refuses, hcause⟩ := State.refuses_of_finish files rfl h
      cases hcause
      exact ⟨tokens, _, [], s, hstream, hrun, refuses, rfl, rfl⟩

/-- Where the text has a token, the text before it spells the tokens before it. -/
theorem exists_spelled_of_stream {source : String} {before after : List Token} {t : Token}
    (h : Token.stream source = .ok (before ++ t :: after)) :
    ∃ first last, source = first ++ t.lexeme.spelling ++ last ∧
      first.utf8ByteSize = t.position ∧ Spelled 0 first.toList before := by
  rcases stream_cases h with ⟨rfl, rfl, hscan⟩ | ⟨-, rest, rfl, hscan⟩
  · exact ⟨source, "", by simp [Token.endOf, Lexeme.spelling, Lexeme.text], rfl,
      scan_eq_ok_iff_spelled.1 hscan⟩
  · obtain ⟨first, last, hsource, hposition, hfirst⟩ := (scan_eq_ok_iff_spelled.1 hscan).split
    refine ⟨String.ofList first, String.ofList last, ?_, ?_, ?_⟩
    · apply String.toList_inj.1
      simpa using hsource
    · rw [← octets_toList, String.toList_ofList, hposition, Nat.zero_add]
    · rwa [String.toList_ofList]

/-- Reading refuses the first token that no expression has after the tokens before it: the text up
to it begins an expression, and every text that begins with these tokens is refused at the same
token. What is found there is the text of the token, or the end of the text. -/
theorem read_unexpected (files : Files) (source expected found : String) (position : Nat)
    (h : read files source = .error (.unexpectedToken expected found position)) :
    ∃ before t after, Token.stream source = .ok (before ++ t :: after) ∧
      t.position = position ∧
      (∃ first last, source = first ++ t.lexeme.spelling ++ last ∧
        first.utf8ByteSize = position ∧ ∃ more e, read files (first ++ more) = .ok e) ∧
      (∀ other before' u after', Token.stream other = .ok (before' ++ u :: after') →
        before'.map Token.lexeme = before.map Token.lexeme → u.lexeme = t.lexeme →
          read files other = .error (.unexpectedToken expected found u.position)) ∧
      (t.lexeme ≠ .endOfInput → found = "'" ++ t.lexeme.spelling ++ "'") ∧
      (t.lexeme = .endOfInput → found = "end of input" ∧ position = source.utf8ByteSize) := by
  obtain ⟨before, t, after, s, hstream, hrun, refuses, rfl, rfl⟩ := exists_refuses_of_read h
  obtain ⟨first, last, hsource, hfirst, hspelled⟩ := exists_spelled_of_stream hstream
  refine ⟨before, t, after, hstream, rfl, ⟨first, last, hsource, hfirst, ?_⟩, ?_, ?_, ?_⟩
  · exact exists_read_append hspelled hrun
  · intro other before' u after' hother hbefore hu
    have hrun' := run_of_lexemes hrun hbefore
    rw [read_of_refuses hother hrun' (hu ▸ refuses), refuse, hu]
  · exact Lexeme.found_eq
  · intro ht
    rcases stream_cases hstream with ⟨rfl, -, -⟩ | ⟨hne, -⟩
    · exact ⟨rfl, rfl⟩
    · exact (hne ht).elim

/-- A complement cannot follow an operand, and the group around it is still open. -/
theorem read_unexpected_in_group :
    let source := "(a.followers | {b, c} ~d.following)"
    read .error source = .error (.unexpectedToken "')'" "'~'" 22) ∧
      ∃ before t after, Token.stream source = .ok (before ++ t :: after) ∧ t.position = 22 ∧
        ∃ first last, source = first ++ t.lexeme.spelling ++ last ∧
          first.utf8ByteSize = 22 ∧ ∃ more e, read .error (first ++ more) = .ok e := by
  intro source
  have h : read .error source = .error (.unexpectedToken "')'" "'~'" 22) := by
    decide
  obtain ⟨before, t, after, hstream, hposition, hbefore, -⟩ := read_unexpected _ _ _ _ _ h
  exact ⟨h, before, t, after, hstream, hposition, hbefore⟩

end AccountGroups.Expr
