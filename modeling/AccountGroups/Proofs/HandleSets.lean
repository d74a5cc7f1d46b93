import AccountGroups.Proofs.HandleFiles
import AccountGroups.Proofs.Keys
import AccountGroups.Proofs.Lowercase

/-!
# Sets of handles

A set of handles keeps their lowercase forms, each once, in the order of code points. So neither the
letter case of the handles nor their order and number can be seen in it, and taking the handles out
and putting them in again changes nothing. The key of a set of barewords tells the set.
-/

namespace AccountGroups

/-- Texts stand in the order of their code points. -/
theorem Text.lt_iff_points {s t : String} :
    s < t ↔ s.toList.map Char.toNat < t.toList.map Char.toNat := by
  have hlist (cs ds : List Char) : cs < ds ↔ cs.map Char.toNat < ds.map Char.toNat := by
    induction cs generalizing ds with
    | nil => cases ds <;> simp
    | cons c cs ih =>
      cases ds with
      | nil => simp
      | cons d ds =>
        rw [List.map_cons, List.map_cons, List.cons_lt_cons_iff, List.cons_lt_cons_iff, ← ih,
          Char.lt_def, UInt32.lt_iff_toNat_lt, ← Char.toNat_inj]
        rfl
  rw [String.lt_iff_toList_lt]
  exact hlist s.toList t.toList

namespace HandleSet

open Text Token

theorem lowercase_of_mem_ofHandles {names : List String} {h : String} (hh : h ∈ ofHandles names) :
    lowercase h = h := by
  obtain ⟨w, -, rfl⟩ := mem_ofHandles.1 hh
  exact lowercase_lowercase w

theorem isBareword_of_mem_ofHandles {names : List String} (hnames : ∀ w ∈ names, IsBareword w) :
    ∀ h ∈ ofHandles names, IsBareword h := by
  intro h hh
  obtain ⟨w, hw, rfl⟩ := mem_ofHandles.1 hh
  exact (isHandle_lowercase (hnames w hw)).1

/-- Two lists of handles make one set when they have the same lowercase forms. A set lists its
handles in the order of their code points and is made of them again. Sets of barewords are told
apart by their keys. -/
theorem ofHandles_canonical (xs ys : List String) :
    (ofHandles xs = ofHandles ys ↔ SameHandles xs ys) ∧
    ((ofHandles xs).toList.Pairwise fun a b => a.toList.map Char.toNat < b.toList.map Char.toNat) ∧
    ofHandles (ofHandles xs).toList = ofHandles xs ∧
    ((∀ h ∈ ofHandles xs, IsBareword h) → (∀ h ∈ ofHandles ys, IsBareword h) →
      ((ofHandles xs).key = (ofHandles ys).key ↔ ofHandles xs = ofHandles ys)) := by
  refine ⟨ofHandles_eq_iff, ?_, ?_, fun hx hy => key_eq_iff hx hy⟩
  · exact (ofHandles xs).ascending.imp fun hlt => lt_iff_points.1 hlt
  · exact ofHandles_toList fun h hh => lowercase_of_mem_ofHandles hh

/-- A sigma at the end of a word, a letter with two lowercase characters, and barewords. -/
theorem ofHandles_canonical_mixed :
    SameHandles ["ΌΣΟΣ", "İ", "x"] ["X", "i\u0307", "όσος", "x"] ∧
      ofHandles (ofHandles ["ΌΣΟΣ", "İ", "x"]).toList = ofHandles ["ΌΣΟΣ", "İ", "x"] ∧
      (∀ h ∈ ofHandles ["Bob", "al"], IsBareword h) ∧
      (∀ h ∈ ofHandles ["AL", "bob-1", "al"], IsBareword h) ∧
      (ofHandles ["Bob", "al"]).key ≠ (ofHandles ["AL", "bob-1", "al"]).key := by
  have hx : ∀ h ∈ ofHandles ["Bob", "al"], IsBareword h :=
    isBareword_of_mem_ofHandles (by decide)
  have hy : ∀ h ∈ ofHandles ["AL", "bob-1", "al"], IsBareword h :=
    isBareword_of_mem_ofHandles (by decide)
  obtain ⟨hsame, -, hagain, -⟩ :=
    ofHandles_canonical ["ΌΣΟΣ", "İ", "x"] ["X", "i\u0307", "όσος", "x"]
  obtain ⟨-, -, -, hkey⟩ := ofHandles_canonical ["Bob", "al"] ["AL", "bob-1", "al"]
  refine ⟨hsame.1 (by decide +kernel), hagain, hx, hy, ?_⟩
  rw [ne_eq, hkey hx hy]
  decide

end HandleSet

end AccountGroups
