import AccountGroups.Proofs.Handles
import Mathlib

/-!
# Lowercase text is settled

No character that a lowercase form has is itself mapped to another one, so that bringing a text to
lowercase a second time changes nothing. The context of a final sigma does not tell the case of
letters and does not reach past a slash: texts that agree up to the case of ASCII letters have one
lowercase form, and the two sides of a slash are mapped apart.
-/

namespace AccountGroups.Text

theorem testBit_foldr_or {ns : List Nat} {n : Nat} :
    (ns.foldr (fun n m => 2 ^ n ||| m) 0).testBit n = true ↔ n ∈ ns := by
  induction ns with
  | nil => simp
  | cons k ns ih =>
    rw [List.foldr_cons, Nat.testBit_or, Bool.or_eq_true, ih, Nat.testBit_two_pow, List.mem_cons,
      decide_eq_true_eq, eq_comm]

/-- Lists of numbers are told apart by one conjunction of all their members as bits. -/
theorem not_mem_of_land_eq_zero {ns ms : List Nat}
    (h : ns.foldr (fun n m => 2 ^ n ||| m) 0 &&& ms.foldr (fun n m => 2 ^ n ||| m) 0 = 0) {n : Nat}
    (hn : n ∈ ns) : n ∉ ms := by
  intro hm
  have hbit := congrArg (Nat.testBit · n) h
  simp only [Nat.testBit_and, testBit_foldr_or.2 hn, testBit_foldr_or.2 hm] at hbit
  simp at hbit

def CaseRun.points (r : CaseRun) : List Nat :=
  (List.range ((r.last - r.first) / r.step + 1)).map fun k => r.first + k * r.step

theorem CaseRun.mem_points {r : CaseRun} {n : Nat} (h : r.covers n = true) : n ∈ r.points := by
  simp only [covers, Bool.and_eq_true, decide_eq_true_eq, beq_iff_eq] at h
  obtain ⟨⟨hfirst, hlast⟩, hstep⟩ := h
  refine List.mem_map.2 ⟨(n - r.first) / r.step, List.mem_range.2 ?_, ?_⟩
  · exact Nat.lt_succ_of_le (Nat.div_le_div_right (Nat.sub_le_sub_right hlast _))
  · have hexact := Nat.mod_add_div (n - r.first) r.step
    rw [hstep, Nat.zero_add, Nat.mul_comm] at hexact
    omega

/-- The code points of all characters that have another lowercase form. -/
def raised : List Nat := 'İ'.toNat :: caseRuns.flatMap CaseRun.points

/-- The code points of the forms that the table gives. -/
def lowered : List Nat :=
  caseRuns.flatMap fun r => r.points.map fun (n : Nat) => (n + r.shift).toNat

theorem not_mem_raised_of_mem_lowered {n : Nat} (h : n ∈ lowered) : n ∉ raised := by
  have apart : lowered.foldr (fun n m => 2 ^ n ||| m) 0 &&&
      raised.foldr (fun n m => 2 ^ n ||| m) 0 = 0 := by
    decide +kernel
  exact not_mem_of_land_eq_zero apart h

theorem isUpper_iff {c : Char} : c.isUpper = true ↔ 0x41 ≤ c.toNat ∧ c.toNat ≤ 0x5A := by
  simp [Char.isUpper, UInt32.le_iff_toNat_le]

theorem toLower_of_not_ascii {c : Char} (h : ¬ c.toNat < 0x80) : c.toLower = c := by
  refine Char.toLower_eq_of_not_isUpper fun hu => ?_
  have := (isUpper_iff.1 hu).2
  omega

theorem lowerChar_of_ascii {c : Char} (h : c.toNat < 0x80) : lowerChar c = [c.toLower] :=
  if_pos h

theorem toNat_toLower_of_ascii {c : Char} (h : c.toNat < 0x80) : c.toLower.toNat < 0x80 := by
  have hall : ∀ n < 0x80, (Char.ofNat n).toLower.toNat < 0x80 := by decide
  have hc := hall c.toNat h
  rwa [Char.ofNat_toNat] at hc

theorem mem_raised {r : CaseRun} (hr : r ∈ caseRuns) {n : Nat} (h : r.covers n = true) :
    n ∈ raised :=
  List.mem_cons_of_mem _ (List.mem_flatMap.2 ⟨r, hr, r.mem_points h⟩)

theorem lowerChar_of_not_raised {c : Char} (h : c.toNat ∉ raised) : lowerChar c = [c] := by
  have hfind : caseRuns.find? (·.covers c.toNat) = none :=
    List.find?_eq_none.2 fun r hr hc => h (mem_raised hr hc)
  have hdot : c ≠ 'İ' := by
    rintro rfl
    exact h List.mem_cons_self
  by_cases hascii : c.toNat < 0x80
  · have hupper : ¬ c.isUpper := by
      intro hu
      have hcovers : (CaseRun.mk 0x41 0x5A 1 32).covers c.toNat = true := by
        simpa [CaseRun.covers, Nat.mod_one] using isUpper_iff.1 hu
      exact h (mem_raised List.mem_cons_self hcovers)
    rw [lowerChar_of_ascii hascii, Char.toLower_eq_of_not_isUpper hupper]
  · simp only [lowerChar, hascii, hdot, hfind, if_false]

/-- A lowercase form is the lowercase form of itself. -/
theorem lowerChar_of_mem {c d : Char} (h : d ∈ lowerChar c) : lowerChar d = [d] := by
  by_cases hascii : c.toNat < 0x80
  · rw [lowerChar_of_ascii hascii, List.mem_singleton] at h
    subst h
    rw [lowerChar_of_ascii (toNat_toLower_of_ascii hascii), Char.toLower_toLower_eq_toLower]
  by_cases hdot : c = 'İ'
  · subst hdot
    have hpair : d = 'i' ∨ d = '\u0307' := by simpa [lowerChar] using h
    rcases hpair with rfl | rfl <;> decide
  cases hfind : caseRuns.find? (·.covers c.toNat) with
  | none =>
    have hself : lowerChar c = [c] := by simp only [lowerChar, hascii, hdot, hfind, if_false]
    rw [hself, List.mem_singleton] at h
    rwa [h]
  | some r =>
    have hd : d = Char.ofNat (c.toNat + r.shift).toNat := by
      simpa [lowerChar, hascii, hdot, hfind] using h
    have hcovers : r.covers c.toNat = true :=
      List.find?_some (p := fun r : CaseRun => r.covers c.toNat) hfind
    have hlowered : (c.toNat + r.shift).toNat ∈ lowered :=
      List.mem_flatMap.2 ⟨r, List.mem_of_find?_eq_some hfind,
        List.mem_map.2 ⟨c.toNat, r.mem_points hcovers, rfl⟩⟩
    apply lowerChar_of_not_raised
    by_cases hvalid : (c.toNat + r.shift).toNat.isValidChar
    · rw [hd, Char.toNat_ofNat, if_pos hvalid]
      exact not_mem_raised_of_mem_lowered hlowered
    · rw [hd, Char.toNat_ofNat, if_neg hvalid]
      decide +kernel

/-- A lowercase form begins with the character only where it is the character. -/
theorem lowerChar_eq_of_head {c : Char} {ds : List Char} (h : lowerChar c = c :: ds) : ds = [] := by
  have hself : lowerChar c = [c] := lowerChar_of_mem (h ▸ List.mem_cons_self)
  rw [hself] at h
  exact (List.cons.inj h).2.symm

theorem lowerChar_ne_nil (c : Char) : lowerChar c ≠ [] := by
  unfold lowerChar
  split
  · simp
  · split
    · simp
    · split <;> simp

theorem lowerChar_lowerSigma (before after : List Char) :
    lowerChar (lowerSigma before after) = [lowerSigma before after] := by
  unfold lowerSigma
  split <;> decide

theorem lowerFrom_cons {before after : List Char} {c : Char} :
    lowerFrom before (c :: after) =
      (if c = 'Σ' then [lowerSigma before after] else lowerChar c) ++
        lowerFrom (c :: before) after :=
  rfl

theorem lowerChar_of_mem_lowerFrom {before cs : List Char} {d : Char}
    (h : d ∈ lowerFrom before cs) : lowerChar d = [d] := by
  induction cs generalizing before with
  | nil => cases h
  | cons c cs ih =>
    rw [lowerFrom_cons, List.mem_append] at h
    rcases h with h | h
    · split at h
      · rw [List.mem_singleton.1 h]
        exact lowerChar_lowerSigma before cs
      · exact lowerChar_of_mem h
    · exact ih h

theorem ne_sigma_of_lowerChar {c : Char} (h : lowerChar c = [c]) : c ≠ 'Σ' := by
  rintro rfl
  revert h
  decide

theorem lowerFrom_of_settled {before cs : List Char} (h : ∀ c ∈ cs, lowerChar c = [c]) :
    lowerFrom before cs = cs := by
  induction cs generalizing before with
  | nil => rfl
  | cons c cs ih =>
    have hc := h c List.mem_cons_self
    rw [lowerFrom_cons, if_neg (ne_sigma_of_lowerChar hc), hc,
      ih fun d hd => h d (List.mem_cons_of_mem _ hd)]
    rfl

@[simp] theorem toList_lowercase (s : String) : (lowercase s).toList = lowerFrom [] s.toList :=
  String.toList_ofList

theorem lowercase_lowercase (s : String) : lowercase (lowercase s) = lowercase s := by
  rw [lowercase, toList_lowercase, lowerFrom_of_settled fun _ => lowerChar_of_mem_lowerFrom]
  rfl

theorem isAlpha_iff {c : Char} : c.isAlpha = true ↔
    (0x41 ≤ c.toNat ∧ c.toNat ≤ 0x5A) ∨ (0x61 ≤ c.toNat ∧ c.toNat ≤ 0x7A) := by
  simp [Char.isAlpha, Char.isUpper, Char.isLower, UInt32.le_iff_toNat_le]

theorem inSpans_toLower {spans : List (Nat × Nat)} {b : Bool}
    (letters : ∀ c : Char, c.isAlpha = true → inSpans spans c = b) (c : Char) :
    inSpans spans c.toLower = inSpans spans c := by
  by_cases h : c.isAlpha = true
  · rw [letters c h, letters c.toLower (by rwa [Char.isAlpha_toLower_eq_isAlpha])]
  · have hupper : ¬ c.isUpper := by
      intro hu
      simp [Char.isAlpha, hu] at h
    rw [Char.toLower_eq_of_not_isUpper hupper]

theorem ignorable_toLower (c : Char) :
    inSpans ignorableSpans c.toLower = inSpans ignorableSpans c := by
  refine inSpans_toLower (b := false) (fun c hc => ?_) c
  have apart : ∀ s ∈ ignorableSpans, s.2 < 0x41 ∨ (0x5A < s.1 ∧ s.2 < 0x61) ∨ 0x7A < s.1 := by
    decide +kernel
  rw [inSpans, List.any_eq_false]
  intro s hs
  have := apart s hs
  have := isAlpha_iff.1 hc
  simp only [Bool.and_eq_true, decide_eq_true_eq]
  omega

theorem cased_toLower (c : Char) : inSpans casedSpans c.toLower = inSpans casedSpans c := by
  refine inSpans_toLower (b := true) (fun c hc => ?_) c
  rw [inSpans, List.any_eq_true]
  rcases isAlpha_iff.1 hc with h | h
  · exact ⟨(0x41, 0x5A), by simp [casedSpans], by simp [h]⟩
  · exact ⟨(0x61, 0x7A), by simp [casedSpans], by simp [h]⟩

theorem meetsCased_map_toLower (cs : List Char) :
    meetsCased (cs.map Char.toLower) = meetsCased cs := by
  have hcomp : inSpans ignorableSpans ∘ Char.toLower = inSpans ignorableSpans :=
    funext ignorable_toLower
  rw [meetsCased, meetsCased, List.dropWhile_map, hcomp]
  cases cs.dropWhile (inSpans ignorableSpans) with
  | nil => rfl
  | cons c rest => exact cased_toLower c

theorem toLower_eq_sigma {c : Char} : c.toLower = 'Σ' ↔ c = 'Σ' := by
  by_cases hascii : c.toNat < 0x80
  · constructor
    · intro h
      have hlow := toNat_toLower_of_ascii hascii
      rw [h] at hlow
      exact absurd hlow (by decide)
    · rintro rfl
      exact absurd hascii (by decide)
  · rw [toLower_of_not_ascii hascii]

theorem lowerChar_toLower (c : Char) : lowerChar c.toLower = lowerChar c := by
  by_cases hascii : c.toNat < 0x80
  · rw [lowerChar_of_ascii hascii, lowerChar_of_ascii (toNat_toLower_of_ascii hascii),
      Char.toLower_toLower_eq_toLower]
  · rw [toLower_of_not_ascii hascii]

theorem lowerFrom_map_toLower (before cs : List Char) :
    lowerFrom (before.map Char.toLower) (cs.map Char.toLower) = lowerFrom before cs := by
  induction cs generalizing before with
  | nil => rfl
  | cons c cs ih =>
    have hrest := ih (c :: before)
    rw [List.map_cons] at hrest
    rw [List.map_cons, lowerFrom_cons, lowerFrom_cons, hrest, lowerChar_toLower, lowerSigma,
      lowerSigma, meetsCased_map_toLower, meetsCased_map_toLower]
    simp only [toLower_eq_sigma]

/-- Texts that agree up to the case of ASCII letters have one lowercase form. -/
theorem lowercase_eq_of_sameLetters {s t : String} (h : sameLetters s t = true) :
    lowercase s = lowercase t := by
  have hmap : s.toList.map Char.toLower = t.toList.map Char.toLower := beq_iff_eq.1 h
  have hlower : lowerFrom [] s.toList = lowerFrom [] t.toList :=
    calc lowerFrom [] s.toList
      _ = lowerFrom [] (s.toList.map Char.toLower) := (lowerFrom_map_toLower [] _).symm
      _ = lowerFrom [] (t.toList.map Char.toLower) := by rw [hmap]
      _ = lowerFrom [] t.toList := lowerFrom_map_toLower [] _
  rw [lowercase, lowercase, hlower]

/-- All characters but ASCII letters are lowercase. -/
def RaisedInAscii (s : String) : Prop := ∀ c ∈ s.toList, c.toNat < 0x80 ∨ lowerChar c = [c]

instance (s : String) : Decidable (RaisedInAscii s) :=
  List.decidableBAll (fun c : Char => c.toNat < 0x80 ∨ lowerChar c = [c]) s.toList

/-- A raised character outside ASCII gives way to others, and the first of them is another one. -/
theorem exists_head_of_raised {before after : List Char} {c : Char} (hascii : ¬ c.toNat < 0x80)
    (hraised : lowerChar c ≠ [c]) :
    ∃ d ds, (if c = 'Σ' then [lowerSigma before after] else lowerChar c) = d :: ds ∧
      c.toLower ≠ d.toLower := by
  obtain ⟨d, ds, hpiece, hne⟩ : ∃ d ds,
      (if c = 'Σ' then [lowerSigma before after] else lowerChar c) = d :: ds ∧ d ≠ c := by
    split
    · next hs =>
      refine ⟨_, [], rfl, fun h => ?_⟩
      exact ne_sigma_of_lowerChar (lowerChar_lowerSigma before after) (h.trans hs)
    · obtain ⟨d, ds, hd⟩ := List.exists_cons_of_ne_nil (lowerChar_ne_nil c)
      refine ⟨d, ds, hd, ?_⟩
      rintro rfl
      rw [lowerChar_eq_of_head hd] at hd
      exact hraised hd
  refine ⟨d, ds, hpiece, fun hsame => ?_⟩
  rw [toLower_of_not_ascii hascii] at hsame
  by_cases hd : d.toNat < 0x80
  · exact hascii (hsame ▸ toNat_toLower_of_ascii hd)
  · exact hne (hsame.trans (toLower_of_not_ascii hd)).symm

/-- The lowercase form, with anything behind it, is the text up to the case of ASCII letters only
when all raised characters are ASCII letters. -/
theorem map_toLower_lowerFrom_append {before cs rest : List Char} :
    (cs ++ rest).map Char.toLower = (lowerFrom before cs ++ rest).map Char.toLower ↔
      ∀ c ∈ cs, c.toNat < 0x80 ∨ lowerChar c = [c] := by
  induction cs generalizing before with
  | nil => simp [lowerFrom]
  | cons c cs ih =>
    rw [List.forall_mem_cons, ← @ih (c :: before), lowerFrom_cons]
    by_cases hascii : c.toNat < 0x80
    · have hs : c ≠ 'Σ' := by
        rintro rfl
        exact absurd hascii (by decide)
      simp [hs, lowerChar_of_ascii hascii, hascii]
    by_cases hself : lowerChar c = [c]
    · simp [ne_sigma_of_lowerChar hself, hself]
    · obtain ⟨d, ds, hpiece, hne⟩ := @exists_head_of_raised before cs c hascii hself
      rw [hpiece]
      refine iff_of_false (fun h => ?_) fun h => h.1.elim hascii hself
      exact hne (List.cons.inj h).1

theorem sameLetters_lowercase_append_iff {s rest : String} :
    sameLetters (s ++ rest) (lowercase s ++ rest) = true ↔ RaisedInAscii s := by
  rw [sameLetters, beq_iff_eq, String.toList_append, String.toList_append, toList_lowercase]
  exact map_toLower_lowerFrom_append

theorem sameLetters_lowercase_iff {s : String} :
    sameLetters s (lowercase s) = true ↔ RaisedInAscii s := by
  have h : sameLetters (s ++ "") (lowercase s ++ "") = true ↔ RaisedInAscii s :=
    sameLetters_lowercase_append_iff
  rwa [String.append_empty, String.append_empty] at h

/-- What stands behind a slash is no context for what stands before it. -/
theorem meetsCased_append_slash (cs rest : List Char) :
    meetsCased (cs ++ '/' :: rest) = meetsCased cs := by
  induction cs with
  | nil =>
    have hslash : inSpans ignorableSpans '/' = false := by decide +kernel
    have huncased : inSpans casedSpans '/' = false := by decide
    simp [meetsCased, hslash, huncased]
  | cons c cs ih =>
    by_cases hc : inSpans ignorableSpans c = true
    · simpa [meetsCased, hc] using ih
    · simp [meetsCased, hc]

theorem lowerFrom_after_slash (before left cs : List Char) :
    lowerFrom (before ++ '/' :: left) cs = lowerFrom before cs := by
  induction cs generalizing before with
  | nil => rfl
  | cons c cs ih =>
    have hrest := ih (c :: before)
    rw [List.cons_append] at hrest
    rw [lowerFrom_cons, lowerFrom_cons, hrest, lowerSigma, lowerSigma, meetsCased_append_slash]

theorem lowerFrom_append_slash (before cs rest : List Char) :
    lowerFrom before (cs ++ '/' :: rest) = lowerFrom before cs ++ '/' :: lowerFrom [] rest := by
  induction cs generalizing before with
  | nil =>
    have hself : lowerChar '/' = ['/'] := by decide
    have hrest := lowerFrom_after_slash [] before rest
    rw [List.nil_append] at hrest
    rw [List.nil_append, lowerFrom_cons, if_neg (by decide), hself, hrest]
    rfl
  | cons c cs ih =>
    rw [List.cons_append, lowerFrom_cons, lowerFrom_cons, ih, lowerSigma, lowerSigma,
      meetsCased_append_slash, List.append_assoc]

/-- The two sides of a slash are mapped apart. -/
theorem lowercase_append_slash (s t : String) :
    lowercase (s ++ "/" ++ t) = lowercase s ++ "/" ++ lowercase t := by
  apply String.toList_injective
  simp only [toList_lowercase, String.toList_append]
  have hslash : "/".toList = ['/'] := rfl
  rw [hslash, List.append_assoc, List.append_assoc]
  exact lowerFrom_append_slash [] s.toList t.toList

end AccountGroups.Text
