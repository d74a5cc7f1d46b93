import AccountGroups.Expr.Reading
import AccountGroups.Proofs.Prefixes
import Mathlib.Control.Monad.Basic

/-!
# Where cutting a text stops

A text is cut into tokens up to its end or up to a character at which nothing can begin. The text in
front of that character has its tokens, and what stands behind it matters in one case alone: `<`
begins a file literal where a `>` follows, however far behind it.
-/

namespace AccountGroups

namespace Token

/-- Neither a token nor a gap begins with `c` when `after` stands behind it. -/
structure Blocks (c : Char) (after : List Char) : Prop where
  word : isWordChar c = false
  mark : c ∉ "./&|~(){},".toList
  gap : c ∉ [' ', '\t', '\r', '\n']
  file : c = '<' → '>' ∉ after

/-- The text has the character `c` at the position `p`, it is cut into tokens up to there, and
nothing begins there. -/
def StopsAt (source : String) (c : Char) (p : Nat) : Prop :=
  ∃ before after : String, source = before ++ String.singleton c ++ after ∧
    before.utf8ByteSize = p ∧ (∃ tokens, stream before = .ok tokens) ∧ Blocks c after.toList

theorem mark?_eq_none_iff {c : Char} : mark? c = none ↔ c ∉ "./&|~(){},".toList := by
  unfold mark?
  split <;> simp_all

theorem isGap_eq_false_iff {c : Char} : isGap c = false ↔ c ∉ [' ', '\t', '\r', '\n'] := by
  simp [isGap, and_assoc]

theorem Blocks.endsWord {c : Char} {after : List Char} (h : Blocks c after) :
    EndsWord (c :: after) :=
  endsWord_cons.2 h.word

theorem scanFrom_path_open {start p : Nat} {read cs : List Char} (h : '>' ∉ cs) :
    scanFrom (.path start read) p cs = .error (.unexpectedCharacter '<' start) := by
  induction cs generalizing p read with
  | nil => rfl
  | cons c cs ih =>
    have hc : c ≠ '>' := fun heq => h (by simp [heq])
    have ha : advance (.path start read) p c = .ok ([], .path start (c :: read)) := by
      simp [advance, hc]
    rw [scanFrom_cons ha, ih fun hcs => h (List.mem_cons_of_mem _ hcs)]
    rfl

theorem Blocks.scanFrom_eq {c : Char} {after : List Char} (h : Blocks c after) (p : Nat) :
    scanFrom .between p (c :: after) = .error (.unexpectedCharacter c p) := by
  by_cases hopen : c = '<'
  · subst hopen
    rw [scanFrom_enter (enter_open p), scanFrom_path_open (h.file rfl)]
    rfl
  · have henter : enter p c = .error (.unexpectedCharacter c p) := by
      simp [enter, h.word, hopen, mark?_eq_none_iff.2 h.mark, isGap_eq_false_iff.2 h.gap]
    simp only [scanFrom, advance, henter]

theorem exists_word_append {c : Char} (cs : List Char) (hc : isWordChar c = true) :
    ∃ w rest, c :: cs = w ++ rest ∧ w ≠ [] ∧ (∀ d ∈ w, isWordChar d = true) ∧ EndsWord rest := by
  refine ⟨(c :: cs).takeWhile isWordChar, (c :: cs).dropWhile isWordChar,
    List.takeWhile_append_dropWhile.symm, by simp [hc], fun d hd => ?_, fun d hd => ?_⟩
  · exact List.all_eq_true.1 List.all_takeWhile d hd
  · simpa [Option.mem_def.1 hd] using List.head?_dropWhile_not isWordChar (c :: cs)

/-- Every text spells tokens up to its end or up to a character at which nothing begins. A word and
a path take several characters at once, so the induction is on the length. -/
theorem exists_spelled_append (p : Nat) (cs : List Char) :
    ∃ before rest ts, cs = before ++ rest ∧ Spelled p before ts ∧
      ∀ c after, rest = c :: after → Blocks c after := by
  induction hn : cs.length using Nat.strongRecOn generalizing p cs with
  | ind n ih =>
    subst hn
    cases cs with
    | nil => exact ⟨[], [], [], rfl, .nil, by simp⟩
    | cons c cs =>
      by_cases hgap : isGap c = true
      · obtain ⟨before, rest, ts, rfl, h, hrest⟩ :=
          ih _ (Nat.lt_succ_self _) (p + c.utf8Size) cs rfl
        exact ⟨c :: before, rest, ts, rfl, .gap hgap h, hrest⟩
      by_cases hword : isWordChar c = true
      · obtain ⟨w, cs', hcs, ne, hw, hends⟩ := exists_word_append cs hword
        have hlt : cs'.length < (c :: cs).length := by
          rw [hcs, List.length_append]
          exact Nat.lt_add_of_pos_left (List.length_pos_iff.2 ne)
        obtain ⟨before, rest, ts, rfl, h, hrest⟩ := ih _ hlt (p + octets w) cs' rfl
        rw [hcs]
        exact ⟨w ++ before, rest, _, by simp, .word ne hw hends.of_append h, hrest⟩
      cases hmark : mark? c with
      | some l =>
        obtain ⟨before, rest, ts, rfl, h, hrest⟩ :=
          ih _ (Nat.lt_succ_self _) (p + c.utf8Size) cs rfl
        exact ⟨c :: before, rest, _, rfl, .mark hmark h, hrest⟩
      | none =>
        by_cases hfile : c = '<' ∧ '>' ∈ cs
        · obtain ⟨rfl, hclose⟩ := hfile
          obtain ⟨path, cs', rfl, hpath⟩ := List.eq_append_cons_of_mem hclose
          have hlt : cs'.length < ('<' :: (path ++ '>' :: cs')).length := by
            simp only [List.length_cons, List.length_append]
            omega
          obtain ⟨before, rest, ts, rfl, h, hrest⟩ :=
            ih _ hlt (p + octets ('<' :: path ++ ['>'])) cs' rfl
          exact ⟨'<' :: path ++ '>' :: before, rest, _, by simp, .file hpath h, hrest⟩
        · refine ⟨[], c :: cs, [], rfl, .nil, ?_⟩
          intro d after heq
          cases heq
          exact ⟨by simpa using hword, mark?_eq_none_iff.1 hmark,
            isGap_eq_false_iff.1 (by simpa using hgap), fun hopen hclose => hfile ⟨hopen, hclose⟩⟩

theorem stream_eq_error_iff {source : String} {cause : ExprError} :
    stream source = .error cause ↔ scan source = .error cause := by
  unfold stream
  cases scan source <;> simp [Except.map]

theorem exists_stream_iff {source : String} :
    (∃ tokens, stream source = .ok tokens) ↔ ∃ tokens, scan source = .ok tokens := by
  unfold stream
  cases scan source <;> simp [Except.map]

theorem StopsAt.scan {source : String} {c : Char} {p : Nat} (h : StopsAt source c p) :
    scan source = .error (.unexpectedCharacter c p) := by
  obtain ⟨before, after, rfl, rfl, hbefore, hblocks⟩ := h
  obtain ⟨tokens, htokens⟩ := exists_stream_iff.1 hbefore
  have happend := (scan_eq_ok_iff_spelled.1 htokens).scanFrom_append hblocks.endsWord
  have hall : (before ++ String.singleton c ++ after).toList =
      before.toList ++ c :: after.toList := by simp
  rw [Token.scan, hall, happend, hblocks.scanFrom_eq, Nat.zero_add, octets_toList]
  rfl

/-- A text has its tokens, or there is a place where cutting it stops. -/
theorem exists_scan_or_stopsAt (source : String) :
    (∃ tokens, scan source = .ok tokens) ∨ ∃ c p, StopsAt source c p := by
  obtain ⟨before, rest, tokens, hsource, hbefore, hrest⟩ := exists_spelled_append 0 source.toList
  cases rest with
  | nil =>
    rw [List.append_nil] at hsource
    exact .inl ⟨tokens, scan_eq_ok_iff_spelled.2 (hsource ▸ hbefore)⟩
  | cons c after =>
    refine .inr ⟨c, _, String.ofList before, String.ofList after, ?_, rfl, ?_, ?_⟩
    · apply String.toList_inj.1
      simpa using hsource
    · refine exists_stream_iff.2 ⟨tokens, scan_eq_ok_iff_spelled.2 ?_⟩
      rwa [String.toList_ofList]
    · rw [String.toList_ofList]
      exact hrest c after rfl

/-- A text that is not cut into tokens is refused at the one place where cutting it stops. Reading
refuses it there too, whatever expression the tokens before begin or fail to begin, and whatever
the files hold that they name. -/
theorem stream_stops_exactly (source : String) :
    (∀ c p, stream source = .error (.unexpectedCharacter c p) ↔ StopsAt source c p) ∧
    (∀ c p d q, StopsAt source c p → StopsAt source d q → c = d ∧ p = q) ∧
    ((∀ c p, ¬ StopsAt source c p) → ∃ tokens, stream source = .ok tokens) ∧
    (∀ c p, StopsAt source c p →
      ∀ files, Expr.read files source = .error (.unexpectedCharacter c p)) := by
  refine ⟨fun c p => ⟨fun h => ?_, fun h => stream_eq_error_iff.2 h.scan⟩, ?_, fun h => ?_, ?_⟩
  · rw [stream_eq_error_iff] at h
    rcases exists_scan_or_stopsAt source with ⟨tokens, htokens⟩ | ⟨d, q, hstops⟩
    · cases h.symm.trans htokens
    · cases h.symm.trans hstops.scan
      exact hstops
  · intro c p d q h h'
    cases h.scan.symm.trans h'.scan
    exact ⟨rfl, rfl⟩
  · rcases exists_scan_or_stopsAt source with htokens | ⟨c, p, hstops⟩
    · exact exists_stream_iff.2 htokens
    · exact (h c p hstops).elim
  · intro c p h files
    rw [Expr.read, h.scan]

/-- The second `<` is not closed, and the text before it has a file literal and no operand. -/
theorem stream_stops_exactly_open :
    let source := "& <é#> <b"
    StopsAt source '<' 8 ∧ stream source = .error (.unexpectedCharacter '<' 8) ∧
      ∀ files, Expr.read files source = .error (.unexpectedCharacter '<' 8) := by
  intro source
  obtain ⟨hstream, -, -, hread⟩ := stream_stops_exactly source
  have hstops : StopsAt source '<' 8 := (hstream '<' 8).1 (by decide)
  exact ⟨hstops, (hstream '<' 8).2 hstops, hread '<' 8 hstops⟩

end Token

end AccountGroups
