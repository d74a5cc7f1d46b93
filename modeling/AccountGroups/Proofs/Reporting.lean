import AccountGroups.Report
import Mathlib.Data.Prod.Lex
import Mathlib.Data.String.Basic

/-!
# Lines of reports

A report has one line for each listed id, in an order that the names alone decide. Names whose
lowercase forms agree are told apart by the names themselves, so that the order is total, and
neither the order in which ids are taken nor that of users can be seen in a report.
-/

namespace AccountGroups

namespace Report

variable {users : List User}

theorem find?_id_eq_none {id : AccountId} (h : ∀ u ∈ users, u.id ≠ id) :
    users.reverse.find? (fun u => u.id == id) = none := by
  rw [List.find?_eq_none]
  intro u hu heq
  exact h u (List.mem_reverse.1 hu) (eq_of_beq heq)

theorem name_of_last {before after : List User} {u : User} (h : ∀ v ∈ after, v.id ≠ u.id) :
    name (before ++ u :: after) u.id = u.handle := by
  have hfind : (before ++ u :: after).reverse.find? (fun v => v.id == u.id) = some u := by
    simp [find?_id_eq_none h]
  rw [name, hfind]

theorem name_of_absent {id : AccountId} (h : ∀ u ∈ users, u.id ≠ id) :
    name users id = toString id.toNat := by
  rw [name, find?_id_eq_none h]
  rfl

/-- The one user with an id names it. -/
theorem name_of_mem {u : User} (distinct : (users.map User.id).Nodup) (hu : u ∈ users) :
    name users u.id = u.handle := by
  obtain ⟨before, after, rfl⟩ := List.append_of_mem hu
  rw [List.map_append, List.map_cons, List.nodup_append, List.nodup_cons] at distinct
  obtain ⟨-, ⟨hnot, -⟩, -⟩ := distinct
  exact name_of_last fun v hv heq => hnot (heq ▸ List.mem_map_of_mem hv)

/-- Users with different ids name ids alike in any order. -/
theorem name_of_perm {users' : List User} (hp : users'.Perm users)
    (distinct : (users.map User.id).Nodup) : name users' = name users := by
  have distinct' : (users'.map User.id).Nodup := (hp.map User.id).nodup_iff.2 distinct
  funext id
  by_cases h : ∃ u ∈ users, u.id = id
  · obtain ⟨u, hu, rfl⟩ := h
    rw [name_of_mem distinct hu, name_of_mem distinct' (hp.mem_iff.2 hu)]
  · have habsent : ∀ u ∈ users, u.id ≠ id := fun u hu heq => h ⟨u, hu, heq⟩
    rw [name_of_absent habsent, name_of_absent fun u hu => habsent u (hp.mem_iff.1 hu)]

/-- The lowercase form decides, and the name itself where two lowercase forms agree. -/
def Precedes (a b : String) : Prop :=
  Text.lowercase a < Text.lowercase b ∨ Text.lowercase a = Text.lowercase b ∧ a ≤ b

instance (a b : String) : Decidable (Precedes a b) := instDecidableOr

theorem Precedes.antisymm {a b : String} (h : Precedes a b) (h' : Precedes b a) : a = b := by
  rcases h with h | ⟨heq, hle⟩
  · rcases h' with h' | ⟨heq, -⟩
    · exact absurd h' (lt_asymm h)
    · exact absurd heq.symm (ne_of_lt h)
  · rcases h' with h' | ⟨-, hle'⟩
    · exact absurd heq.symm (ne_of_lt h')
    · exact le_antisymm hle hle'

theorem lowerFirst_iff {p q : String × String} : lowerFirst p q = true ↔ toLex p ≤ toLex q := by
  rw [Prod.Lex.toLex_le_toLex, lowerFirst, Bool.or_eq_true, Bool.and_eq_true, decide_eq_true_eq,
    beq_iff_eq, Bool.not_eq_true', decide_eq_false_iff_not, not_lt]

theorem arranged_perm (names : List String) : (arranged names).Perm names := by
  have hp := List.mergeSort_perm (names.map fun n => (Text.lowercase n, n)) lowerFirst
  have hp := hp.map Prod.snd
  rwa [List.map_map, List.map_id''] at hp
  exact fun _ => rfl

theorem pairwise_arranged (names : List String) : (arranged names).Pairwise Precedes := by
  have htrans (p q r : String × String) (h : lowerFirst p q = true) (h' : lowerFirst q r = true) :
      lowerFirst p r = true :=
    lowerFirst_iff.2 (le_trans (lowerFirst_iff.1 h) (lowerFirst_iff.1 h'))
  have htotal (p q : String × String) : (lowerFirst p q || lowerFirst q p) = true := by
    rw [Bool.or_eq_true, lowerFirst_iff, lowerFirst_iff]
    exact le_total _ _
  have hsorted := List.pairwise_mergeSort htrans htotal (names.map fun n => (Text.lowercase n, n))
  refine List.pairwise_map.2 (hsorted.imp_of_mem fun {p q} hp hq h => ?_)
  obtain ⟨a, -, rfl⟩ := List.mem_map.1 (List.mem_mergeSort.1 hp)
  obtain ⟨b, -, rfl⟩ := List.mem_map.1 (List.mem_mergeSort.1 hq)
  exact Prod.Lex.toLex_le_toLex.1 (lowerFirst_iff.1 h)

/-- Names have one arrangement. -/
theorem eq_arranged {names lines : List String} (hp : lines.Perm names)
    (hlines : lines.Pairwise Precedes) : lines = arranged names :=
  List.Perm.eq_of_pairwise (fun _ _ _ _ => Precedes.antisymm) hlines (pairwise_arranged names)
    (hp.trans (arranged_perm names).symm)

example : arranged ["b", "9", "É", "B", "é", "10"] = ["10", "9", "B", "b", "É", "é"] :=
  (eq_arranged (by decide) (by decide)).symm

theorem arranged_of_perm {names names' : List String} (hp : names.Perm names') :
    arranged names = arranged names' :=
  eq_arranged ((arranged_perm names).trans hp) (pairwise_arranged names)

/-- The report on ids that are taken in this order. -/
def ofOrder (isComplement : Bool) (order : List AccountId) (users : List User) : Report :=
  if order.isEmpty then ⟨[], some (if isComplement then everybody else nobody)⟩
  else
    let lead := if isComplement then "NOT " else ""
    ⟨(arranged (order.map (name users))).map (lead ++ ·), none⟩

theorem ofOrder_of_perm {isComplement : Bool} {order order' : List AccountId}
    (hp : order.Perm order') :
    ofOrder isComplement order users = ofOrder isComplement order' users := by
  have hempty : order.isEmpty = order'.isEmpty := by
    rw [Bool.eq_iff_iff, List.isEmpty_iff, List.isEmpty_iff]
    exact ⟨fun h => (h ▸ hp).nil_eq.symm, fun h => (h ▸ hp).eq_nil⟩
  rw [ofOrder, ofOrder, hempty, arranged_of_perm (hp.map (name users))]

/-- A report marks a group that lists nobody by its kind. Any other group has a line for each listed
id: its name, which is the handle of the last user with this id or else the numeral of the id, with
`NOT ` before all of them in a complement. The lines are the one arrangement of the names, so that
neither the order in which the ids are taken nor the order of users with different ids matters. -/
theorem ofGroup_arranges (g : Group) (users : List User) :
    (g.listed.toList = [] →
      ofGroup g users = ⟨[], some (if g.isComplement then "(everybody)" else "(nobody)")⟩) ∧
    (g.listed.toList ≠ [] → ∃ names : List String,
      ofGroup g users = ⟨names.map ((if g.isComplement then "NOT " else "") ++ ·), none⟩ ∧
      names.Perm (g.listed.toList.map (name users)) ∧ names.Pairwise Precedes ∧
      ∀ others : List String, others.Perm (g.listed.toList.map (name users)) →
        others.Pairwise Precedes → others = names) ∧
    (∀ before u after, users = before ++ u :: after → (∀ v ∈ after, v.id ≠ u.id) →
      name users u.id = u.handle) ∧
    (∀ id, (∀ u ∈ users, u.id ≠ id) → name users id = toString id.toNat) ∧
    (ofGroup g users).lines.length = g.listed.size ∧
    (∀ order, order.Perm g.listed.toList →
      ofOrder g.isComplement order users = ofGroup g users) ∧
    ∀ users', users'.Perm users → (users.map User.id).Nodup →
      ofGroup g users' = ofGroup g users := by
  have hgroup (users : List User) :
      ofGroup g users = ofOrder g.isComplement g.listed.toList users := rfl
  refine ⟨fun hempty => ?_, fun hne => ?_, ?_, fun _ => name_of_absent, ?_, fun order hp => ?_, ?_⟩
  · rw [hgroup, hempty]
    rfl
  · refine ⟨arranged (g.listed.toList.map (name users)), ?_, arranged_perm _, pairwise_arranged _,
      fun others => eq_arranged⟩
    rw [hgroup, ofOrder, if_neg (by simpa using hne)]
  · rintro before u after rfl h
    exact name_of_last h
  · rw [hgroup, ofOrder, Ascending.size]
    cases horder : g.listed.toList with
    | nil => rfl
    | cons id ids => simp [(arranged_perm _).length_eq]
  · rw [hgroup, ofOrder_of_perm hp]
  · intro users' hp distinct
    rw [hgroup, hgroup, ofOrder, ofOrder, name_of_perm hp distinct]

end Report

end AccountGroups
