import AccountGroups.Proofs.Spelling

/-!
# Prefixes of spellings

The text before a token spells the tokens before it, and spellings can be put one after another
where no bareword runs on. So a text can be cut at any of its tokens and be continued otherwise.
-/

namespace AccountGroups

/-- The text of a lexeme where it stands, with the brackets of a file literal. -/
def Lexeme.spelling : Lexeme → String
  | file path => "<" ++ path ++ ">"
  | l => l.text

theorem Lexeme.found_eq {l : Lexeme} (h : l ≠ .endOfInput) :
    l.found = "'" ++ l.spelling ++ "'" := by
  cases l with
  | endOfInput => exact (h rfl).elim
  | file path =>
    apply String.toList_inj.1
    simp [found, spelling]
  | bareword | dot | slash | ampersand | bar | tilde | openParen | closeParen | openBrace
    | closeBrace | comma => rfl

namespace Token

theorem toList_spelling_of_mark? {c : Char} {l : Lexeme} (h : mark? c = some l) :
    l.spelling.toList = [c] := by
  unfold mark? at h
  split at h <;> cases h <;> rfl

theorem octets_toList (s : String) : octets s.toList = s.utf8ByteSize := by
  have h : ∀ cs : List Char, octets cs = (String.ofList cs).utf8ByteSize := by
    intro cs
    induction cs with
    | nil => rfl
    | cons c cs ih =>
      have hcons : String.ofList (c :: cs) = String.singleton c ++ String.ofList cs := by
        rw [String.singleton_eq_ofList, ← String.ofList_append]
        rfl
      rw [octets_cons, ih, hcons, String.utf8ByteSize_append, String.utf8ByteSize_singleton]
  rw [h, String.ofList_toList]

theorem EndsWord.of_append {cs ds : List Char} (h : EndsWord (cs ++ ds)) : EndsWord cs := by
  cases cs with
  | nil => exact endsWord_nil
  | cons c cs => exact endsWord_cons.2 (endsWord_cons.1 h)

theorem Spelled.append {p : Nat} {cs ds : List Char} {ts us : List Token} (h : Spelled p cs ts)
    (hds : EndsWord ds) (h' : Spelled (p + octets cs) ds us) :
    Spelled p (cs ++ ds) (ts ++ us) := by
  induction h with
  | nil => exact h'
  | gap hc rest ih =>
    rw [octets_cons, ← Nat.add_assoc] at h'
    exact .gap hc (ih h')
  | mark hc rest ih =>
    rw [octets_cons, ← Nat.add_assoc] at h'
    exact .mark hc (ih h')
  | word ne hw hcs rest ih =>
    rw [octets_append, ← Nat.add_assoc] at h'
    rw [List.append_assoc]
    exact .word ne hw (hcs.append hds) (ih h')
  | @file p path cs ts hpath rest ih =>
    have hrest : Spelled (p + octets ('<' :: path ++ ['>'])) (cs ++ ds) (ts ++ us) := by
      apply ih
      simpa [Nat.add_assoc] using h'
    simpa using Spelled.file hpath hrest

/-- Where a token stands, the text before it spells the tokens before it. -/
theorem Spelled.split {p : Nat} {cs : List Char} {ts us : List Token} {t : Token}
    (h : Spelled p cs (ts ++ t :: us)) :
    ∃ before after, cs = before ++ t.lexeme.spelling.toList ++ after ∧
      t.position = p + octets before ∧ Spelled p before ts := by
  generalize hall : ts ++ t :: us = all at h
  induction h generalizing ts with
  | nil => simp at hall
  | @gap p c cs all hc rest ih =>
    obtain ⟨before, after, rfl, hpos, hb⟩ := ih hall
    exact ⟨c :: before, after, rfl, by rw [hpos, octets_cons, Nat.add_assoc], .gap hc hb⟩
  | @mark p c lexeme cs all hc rest ih =>
    cases ts with
    | nil =>
      obtain ⟨rfl, -⟩ := List.cons.inj hall
      exact ⟨[], cs, by rw [toList_spelling_of_mark? hc]; rfl, rfl, .nil⟩
    | cons u ts =>
      obtain ⟨rfl, hrest⟩ := List.cons.inj hall
      obtain ⟨before, after, rfl, hpos, hb⟩ := ih hrest
      exact ⟨c :: before, after, rfl, by rw [hpos, octets_cons, Nat.add_assoc], .mark hc hb⟩
  | @word p w cs all ne hw hcs rest ih =>
    cases ts with
    | nil =>
      obtain ⟨rfl, -⟩ := List.cons.inj hall
      exact ⟨[], cs, by simp [Lexeme.spelling, Lexeme.text], rfl, .nil⟩
    | cons u ts =>
      obtain ⟨rfl, hrest⟩ := List.cons.inj hall
      obtain ⟨before, after, rfl, hpos, hb⟩ := ih hrest
      rw [List.append_assoc] at hcs
      exact ⟨w ++ before, after, by simp, by rw [hpos, octets_append, Nat.add_assoc],
        .word ne hw hcs.of_append hb⟩
  | @file p path cs all hpath rest ih =>
    cases ts with
    | nil =>
      obtain ⟨rfl, -⟩ := List.cons.inj hall
      exact ⟨[], cs, by simp [Lexeme.spelling], rfl, .nil⟩
    | cons u ts =>
      obtain ⟨rfl, hrest⟩ := List.cons.inj hall
      obtain ⟨before, after, rfl, hpos, hb⟩ := ih hrest
      refine ⟨'<' :: path ++ '>' :: before, after, by simp, ?_, .file hpath hb⟩
      rw [hpos]
      simp [Nat.add_assoc]

theorem Spelled.ne_endOfInput {p : Nat} {cs : List Char} {ts : List Token} (h : Spelled p cs ts) :
    ∀ t ∈ ts, t.lexeme ≠ .endOfInput := by
  induction h with
  | nil => simp
  | gap hc rest ih => exact ih
  | mark hc rest ih =>
    refine List.forall_mem_cons.2 ⟨?_, ih⟩
    rintro rfl
    unfold mark? at hc
    split at hc <;> cases hc
  | word ne hw hcs rest ih => exact List.forall_mem_cons.2 ⟨by simp, ih⟩
  | file hpath rest ih => exact List.forall_mem_cons.2 ⟨by simp, ih⟩

theorem error_of_enter {p : Nat} {c : Char} {cause : ExprError} (h : enter p c = .error cause) :
    cause = .unexpectedCharacter c p := by
  by_cases hw : isWordChar c = true
  · rw [enter_word hw] at h
    cases h
  by_cases ho : c = '<'
  · subst ho
    cases h
  cases hm : mark? c with
  | some lexeme =>
    rw [enter_mark hm] at h
    cases h
  | none =>
    by_cases hg : isGap c = true
    · rw [enter_gap hg] at h
      cases h
    · simp only [enter, hw, ho, hm, hg] at h
      exact (Except.error.inj h).symm

theorem error_of_advance {mode : Mode} {p : Nat} {c : Char} {cause : ExprError}
    (h : advance mode p c = .error cause) : cause = .unexpectedCharacter c p := by
  cases mode with
  | between => exact error_of_enter h
  | word start read =>
    simp only [advance] at h
    split at h
    · cases h
    · cases he : enter p c with
      | error e =>
        rw [he] at h
        cases h
        exact error_of_enter he
      | ok r => rw [he] at h; cases h
  | path start read =>
    simp only [advance] at h
    split at h <;> cases h

theorem error_of_scanFrom {mode : Mode} {p : Nat} {cs : List Char} {cause : ExprError}
    (h : scanFrom mode p cs = .error cause) : ∃ c q, cause = .unexpectedCharacter c q := by
  induction cs generalizing mode p with
  | nil =>
    cases mode with
    | between | word => cases h
    | path start read =>
      cases h
      exact ⟨'<', start, rfl⟩
  | cons c cs ih =>
    unfold scanFrom at h
    split at h
    · next e ha =>
      cases h
      exact ⟨c, p, error_of_advance ha⟩
    · next ts next ha =>
      cases hs : scanFrom next (p + c.utf8Size) cs with
      | error e =>
        rw [hs] at h
        cases h
        exact ih hs
      | ok us => rw [hs] at h; cases h

end Token

end AccountGroups
