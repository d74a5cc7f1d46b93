import AccountGroups.Proofs.Grammar

/-!
# Handles of expressions that were read

Barewords are ASCII, so that their lowercase is found letter by letter. The sources of an expression
that was read carry barewords alone, and all but list names are lowercase.
-/

namespace AccountGroups

namespace Token

theorem toNat_of_isWordChar {c : Char} (h : isWordChar c = true) : c.toNat < 0x80 := by
  simp only [isWordChar, Bool.or_eq_true, beq_iff_eq] at h
  rcases h with (h | rfl) | rfl
  · have hlast : c.val ≤ 'Z'.val ∨ c.val ≤ 'z'.val ∨ c.val ≤ '9'.val := by
      rcases Bool.or_eq_true_iff.1 h with h | h
      · rcases Bool.or_eq_true_iff.1 h with h | h
        · exact .inl (of_decide_eq_true h).2
        · exact .inr (.inl (of_decide_eq_true (Bool.and_eq_true_iff.1 h).2))
      · exact .inr (.inr (of_decide_eq_true (Bool.and_eq_true_iff.1 h).2))
    rcases hlast with h | h | h <;>
      exact Nat.lt_of_le_of_lt (UInt32.le_iff_toNat_le.1 h) (by decide)
  · decide
  · decide

theorem toLower_of_isWordChar {c : Char} (h : isWordChar c = true) :
    isWordChar c.toLower = true ∧ c.toLower.isUpper = false := by
  have hall : ∀ n < 0x80, isWordChar (Char.ofNat n) = true →
      isWordChar (Char.ofNat n).toLower = true ∧ (Char.ofNat n).toLower.isUpper = false := by
    decide
  have hc := hall c.toNat (toNat_of_isWordChar h)
  rw [Char.ofNat_toNat] at hc
  exact hc h

end Token

namespace Text

theorem toLower_of_not_isUpper {c : Char} (h : c.isUpper = false) : c.toLower = c :=
  dif_neg (of_decide_eq_false h)

theorem lowerFrom_of_ascii {before cs : List Char} (h : ∀ c ∈ cs, c.toNat < 0x80) :
    lowerFrom before cs = cs.map Char.toLower := by
  induction cs generalizing before with
  | nil => rfl
  | cons c cs ih =>
    have hc : c.toNat < 0x80 := h c (by simp)
    have hs : c ≠ 'Σ' := by
      rintro rfl
      exact absurd hc (by decide)
    have hrest : lowerFrom (c :: before) cs = cs.map Char.toLower :=
      ih fun d hd => h d (by simp [hd])
    simp [lowerFrom, hs, lowerChar, hc, hrest]

theorem lowercase_of_ascii {s : String} (h : ∀ c ∈ s.toList, c.toNat < 0x80) :
    lowercase s = String.ofList (s.toList.map Char.toLower) := by
  rw [lowercase, lowerFrom_of_ascii h]

end Text

open Token Text

theorem not_mem_of_isBareword {w : String} (hw : IsBareword w) {c : Char}
    (hc : isWordChar c = false) : c ∉ w.toList := by
  intro hmem
  rw [hw.2 c hmem] at hc
  cases hc

/-- A bareword without upper case. -/
def IsHandle (s : String) : Prop := IsBareword s ∧ ∀ c ∈ s.toList, c.isUpper = false

theorem lowercase_of_isBareword {s : String} (h : IsBareword s) :
    lowercase s = String.ofList (s.toList.map Char.toLower) :=
  lowercase_of_ascii fun c hc => toNat_of_isWordChar (h.2 c hc)

theorem isHandle_lowercase {s : String} (h : IsBareword s) : IsHandle (lowercase s) := by
  rw [lowercase_of_isBareword h]
  refine ⟨⟨?_, ?_⟩, ?_⟩
  · simp [h.1]
  · intro c hc
    rw [String.toList_ofList, List.mem_map] at hc
    obtain ⟨d, hd, rfl⟩ := hc
    exact (toLower_of_isWordChar (h.2 d hd)).1
  · intro c hc
    rw [String.toList_ofList, List.mem_map] at hc
    obtain ⟨d, hd, rfl⟩ := hc
    exact (toLower_of_isWordChar (h.2 d hd)).2

theorem IsHandle.lowercase_eq {s : String} (h : IsHandle s) : lowercase s = s := by
  have hmap : s.toList.map Char.toLower = s.toList := by
    rw [List.map_congr_left fun c hc => toLower_of_not_isUpper (h.2 c hc), List.map_id']
  rw [lowercase_of_isBareword h.1, hmap, String.ofList_toList]

theorem HandleSet.mem_ofHandles {handles : List String} {h : String} :
    h ∈ HandleSet.ofHandles handles ↔ ∃ w ∈ handles, lowercase w = h := by
  simp [HandleSet.ofHandles]

theorem HandleSet.ofHandles_toList {set : HandleSet} (h : ∀ w ∈ set, lowercase w = w) :
    HandleSet.ofHandles set.toList = set := by
  apply Ascending.ext
  intro x
  rw [HandleSet.mem_ofHandles]
  constructor
  · rintro ⟨w, hw, rfl⟩
    rw [h w hw]
    exact hw
  · intro hx
    exact ⟨x, hx, h x hx⟩

namespace Source

/-- The source carries barewords, lowercase but for the name of a list. -/
def Canonical : Source → Prop
  | followers handle | following handle => IsHandle handle
  | members owner list => IsHandle owner ∧ IsBareword list
  | handles set => ∀ h ∈ set, IsHandle h

theorem canonical_ofHandles {names : List String} (h : ∀ w ∈ names, IsBareword w) :
    (ofHandles names).Canonical := by
  intro x hx
  obtain ⟨w, hw, rfl⟩ := HandleSet.mem_ofHandles.1 hx
  exact isHandle_lowercase (h w hw)

end Source

namespace Expr

/-- All sources of the expression carry barewords, lowercase but for the names of lists. -/
def Canonical (e : Expr) : Prop := ∀ s ∈ e.sources, s.Canonical

theorem canonical_source {s : Source} : (source s).Canonical ↔ s.Canonical := by
  simp [Canonical, sources]

theorem canonical_inter {l r : Expr} : (inter l r).Canonical ↔ l.Canonical ∧ r.Canonical := by
  simp [Canonical, sources, or_imp, forall_and]

theorem canonical_union {l r : Expr} : (union l r).Canonical ↔ l.Canonical ∧ r.Canonical := by
  simp [Canonical, sources, or_imp, forall_and]

theorem canonical_compl {e : Expr} : (compl e).Canonical ↔ e.Canonical := Iff.rfl

variable {files : Files}

theorem mem_listed {words : List String} {w : String} (h : w ∈ words) :
    Lexeme.bareword w ∈ Lexeme.listed words := by
  cases words with
  | nil => cases h
  | cons word words =>
    rcases List.mem_cons.1 h with rfl | h
    · simp [Lexeme.listed]
    · exact List.mem_cons_of_mem _ (List.mem_flatMap.2 ⟨w, h, by simp⟩)

theorem Derives.canonical {part : Part} {ls : List Lexeme} {e : Expr} {d : Nat}
    (h : Derives files part ls e d) (hls : ∀ w, .bareword w ∈ ls → IsBareword w) :
    e.Canonical := by
  induction h with
  | followers h => exact canonical_source.2 (isHandle_lowercase (hls _ (by simp)))
  | following h => exact canonical_source.2 (isHandle_lowercase (hls _ (by simp)))
  | members =>
    exact canonical_source.2 ⟨isHandle_lowercase (hls _ (by simp)), hls _ (by simp)⟩
  | set handles =>
    refine canonical_source.2 (Source.canonical_ofHandles fun w hw => hls w ?_)
    simp [mem_listed hw]
  | file h valid => exact canonical_source.2 (Source.canonical_ofHandles valid)
  | tilde inner ih => exact canonical_compl.2 (ih fun w hw => hls w (by simp [hw]))
  | paren inner ih => exact ih fun w hw => hls w (by simp [hw])
  | operand inner ih => exact ih hls
  | binary operator left right ihl ihr =>
    have hl := ihl fun w hw => hls w (by simp [hw])
    have hr := ihr fun w hw => hls w (by simp [hw])
    cases operator with
    | inter => exact canonical_inter.2 ⟨hl, hr⟩
    | union => exact canonical_union.2 ⟨hl, hr⟩

theorem bareword_of_scan {source : String} {tokens : List Token}
    (h : Token.scan source = .ok tokens) :
    ∀ w, .bareword w ∈ tokens.map Token.lexeme → IsBareword w := by
  intro w hw
  obtain ⟨t, ht, hl⟩ := List.mem_map.1 hw
  exact (scan_eq_ok_iff_spelled.1 h).isBareword t ht w hl

/-- What was read has canonical sources. -/
theorem canonical_of_read {source : String} {e : Expr} (h : read files source = .ok e) :
    e.Canonical := by
  obtain ⟨tokens, d, ht, hd, -⟩ := read_eq_ok_iff.1 h
  exact hd.canonical (bareword_of_scan ht)

end Expr

end AccountGroups
