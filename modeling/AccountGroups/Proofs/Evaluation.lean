import AccountGroups.Proofs.Failures

/-!
# What an expression reads

Evaluating an expression looks at the lists under the keys of its own sources and at nothing else,
and of each list only at the ids that occur in it. When a list is missing, the leftmost source
without one is reported. Otherwise there is a group, whose kind is that of the expression and which
lists ids from the lists alone.
-/

namespace AccountGroups

namespace Group

variable {a b : Group} {id : AccountId}

/-- Groups of the same ids are equal, however their lists are arranged. -/
theorem ofIds_congr {ids ids' : List AccountId} (h : ∀ id, id ∈ ids ↔ id ∈ ids') :
    ofIds ids = ofIds ids' := by
  have hsets : Ascending.ofList ids = Ascending.ofList ids' := Ascending.ext fun id => by simp [h id]
  rw [ofIds, ofIds, hsets]

theorem mem_listed_inter (h : id ∈ (a ∩ b).listed) : id ∈ a.listed ∨ id ∈ b.listed := by
  change id ∈ (a.inter b).listed at h
  cases a <;> cases b <;> simp only [inter, listed, Ascending.mem_inter, Ascending.mem_diff,
    Ascending.mem_union] at h ⊢
  case allBut.allBut => exact h
  case allBut.only => exact .inr h.1
  all_goals exact .inl h.1

theorem mem_listed_union (h : id ∈ (a ∪ b).listed) : id ∈ a.listed ∨ id ∈ b.listed := by
  change id ∈ (a.union b).listed at h
  cases a <;> cases b <;> simp only [union, listed, Ascending.mem_inter, Ascending.mem_diff,
    Ascending.mem_union] at h ⊢
  case only.only => exact h
  case only.allBut => exact .inr h.1
  all_goals exact .inl h.1

@[simp] theorem listed_compl : a.compl.listed = a.listed := by
  cases a <;> rfl

end Group

/-- The id is in the list that is filed for the source. -/
def Fetched.Lists (fetched : Fetched) (id : AccountId) (s : Source) : Prop :=
  ∃ ids, fetched.get? s.key = some ids ∧ id ∈ ids

/-- A list is missing in both places, or the lists have the same ids. -/
abbrev Fetched.SameIds : Option (List AccountId) → Option (List AccountId) → Prop :=
  Option.Rel fun ids ids' => ∀ id, id ∈ ids ↔ id ∈ ids'

theorem KeyMap.contains_eq_isSome {α : Type} (m : KeyMap α) (key : String) :
    m.contains key = (m.get? key).isSome := by
  rw [Bool.eq_iff_iff, contains_iff, mem_keys, Option.isSome_iff_exists]

namespace Expr

variable {fetched others : Fetched} {e : Expr} {g : Group} {cause : ExprError}

theorem evaluate_source_eq_ok {s : Source} :
    (source s).evaluate fetched = .ok g ↔ ∃ ids, fetched.get? s.key = some ids ∧ .ofIds ids = g := by
  rw [evaluate]
  cases fetched.get? s.key <;> simp

theorem evaluate_inter_eq_ok {left right : Expr} :
    (inter left right).evaluate fetched = .ok g ↔
      ∃ a b, left.evaluate fetched = .ok a ∧ right.evaluate fetched = .ok b ∧ a ∩ b = g := by
  rw [evaluate]
  cases left.evaluate fetched with
  | error cause => simp
  | ok a => cases right.evaluate fetched <;> simp

theorem evaluate_union_eq_ok {left right : Expr} :
    (union left right).evaluate fetched = .ok g ↔
      ∃ a b, left.evaluate fetched = .ok a ∧ right.evaluate fetched = .ok b ∧ a ∪ b = g := by
  rw [evaluate]
  cases left.evaluate fetched with
  | error cause => simp
  | ok a => cases right.evaluate fetched <;> simp

theorem evaluate_compl_eq_ok {inner : Expr} :
    (compl inner).evaluate fetched = .ok g ↔
      ∃ a, inner.evaluate fetched = .ok a ∧ a.compl = g := by
  rw [evaluate]
  cases inner.evaluate fetched <;> simp [Except.map]

/-- The kind of the group that an expression denotes, whatever the lists hold. -/
def isComplement : Expr → Bool
  | source _ => false
  | inter left right => left.isComplement && right.isComplement
  | union left right => left.isComplement || right.isComplement
  | compl inner => !inner.isComplement

theorem isComplement_of_evaluate (h : e.evaluate fetched = .ok g) :
    g.isComplement = e.isComplement := by
  induction e generalizing g with
  | source s =>
    obtain ⟨ids, -, rfl⟩ := evaluate_source_eq_ok.1 h
    rfl
  | inter left right ihl ihr =>
    obtain ⟨a, b, ha, hb, rfl⟩ := evaluate_inter_eq_ok.1 h
    rw [isComplement, ← ihl ha, ← ihr hb]
    exact Group.isComplement_inter
  | union left right ihl ihr =>
    obtain ⟨a, b, ha, hb, rfl⟩ := evaluate_union_eq_ok.1 h
    rw [isComplement, ← ihl ha, ← ihr hb]
    exact Group.isComplement_union
  | compl inner ih =>
    obtain ⟨a, ha, rfl⟩ := evaluate_compl_eq_ok.1 h
    rw [isComplement, ← ih ha, Group.isComplement_compl]

/-- No operation brings in an id that none of its operands lists. -/
theorem lists_of_mem_listed (h : e.evaluate fetched = .ok g) {id : AccountId}
    (hid : id ∈ g.listed) : ∃ s ∈ e.sources, fetched.Lists id s := by
  induction e generalizing g with
  | source s =>
    obtain ⟨ids, hids, rfl⟩ := evaluate_source_eq_ok.1 h
    exact ⟨s, List.mem_singleton_self s, ids, hids, Ascending.mem_ofList.1 hid⟩
  | inter left right ihl ihr =>
    obtain ⟨a, b, ha, hb, rfl⟩ := evaluate_inter_eq_ok.1 h
    rcases Group.mem_listed_inter hid with hid | hid
    · obtain ⟨s, hs, hlists⟩ := ihl ha hid
      exact ⟨s, List.mem_append_left _ hs, hlists⟩
    · obtain ⟨s, hs, hlists⟩ := ihr hb hid
      exact ⟨s, List.mem_append_right _ hs, hlists⟩
  | union left right ihl ihr =>
    obtain ⟨a, b, ha, hb, rfl⟩ := evaluate_union_eq_ok.1 h
    rcases Group.mem_listed_union hid with hid | hid
    · obtain ⟨s, hs, hlists⟩ := ihl ha hid
      exact ⟨s, List.mem_append_left _ hs, hlists⟩
    · obtain ⟨s, hs, hlists⟩ := ihr hb hid
      exact ⟨s, List.mem_append_right _ hs, hlists⟩
  | compl inner ih =>
    obtain ⟨a, ha, rfl⟩ := evaluate_compl_eq_ok.1 h
    rw [Group.listed_compl] at hid
    exact ih ha hid

/-- When each source has a list, an expression denotes a group. It contains the ids for which the
expression holds as a formula, where a source stands for the ids of its list. Its kind is read off
the expression, and every id that it lists, as a member or as an exclusion, is in a source's list. -/
theorem evaluate_denotes (e : Expr) (fetched : Fetched)
    (complete : ∀ s ∈ e.sources, fetched.contains s.key = true) :
    ∃ g, e.evaluate fetched = .ok g ∧
      (∀ id, g.contains id = true ↔ e.Holds (fetched.Lists id)) ∧
      g.isComplement = e.isComplement ∧
      ∀ id ∈ g.listed, ∃ s ∈ e.sources, fetched.Lists id s := by
  have hlists : ∀ s ∈ e.sources, ∃ ids, fetched.get? s.key = some ids ∧
      ∀ id, id ∈ ids ↔ fetched.Lists id s := by
    intro s hs
    have hfiled := complete s hs
    rw [KeyMap.contains_eq_isSome] at hfiled
    obtain ⟨ids, hids⟩ := Option.isSome_iff_exists.1 hfiled
    exact ⟨ids, hids, fun id => by simp [Fetched.Lists, hids]⟩
  obtain ⟨g, hg, hcontains⟩ := evaluate_of_get? hlists
  exact ⟨g, hg, hcontains, isComplement_of_evaluate hg, fun id hid => lists_of_mem_listed hg hid⟩

/-- A complement on the left of a union, and one on the right of an intersection. -/
def mixed : Expr :=
  .union (.compl (.source (.followers "a")))
    (.inter (.source (.following "b")) (.compl (.source (.followers "a"))))

/-- Repeated ids in the lists of `mixed`. -/
def mixedLists : Fetched :=
  (KeyMap.empty.insert "a.followers" [3, 1, 3]).insert "b.following" [2, 1, 2]

theorem evaluate_denotes_mixed :
    (∀ s ∈ mixed.sources, mixedLists.contains s.key = true) ∧
      mixed.evaluate mixedLists = .ok (.excluding [1, 3]) ∧
      ∀ id, (Group.excluding [1, 3]).contains id = true ↔ mixed.Holds (mixedLists.Lists id) := by
  have complete : ∀ s ∈ mixed.sources, mixedLists.contains s.key = true := by decide
  have hgroup : mixed.evaluate mixedLists = .ok (.excluding [1, 3]) := by decide
  obtain ⟨g, hg, hcontains, -, -⟩ := evaluate_denotes mixed mixedLists complete
  cases hgroup.symm.trans hg
  exact ⟨complete, hgroup, hcontains⟩

/-- The leftmost source without a list. -/
def missing? (fetched : Fetched) (e : Expr) : Option Source :=
  e.sources.find? fun s => !fetched.contains s.key

theorem missing?_eq_none : e.missing? fetched = none ↔
    ∀ s ∈ e.sources, fetched.contains s.key = true := by
  simp [missing?]

theorem missing?_append {left right e : Expr} (h : e.sources = left.sources ++ right.sources) :
    e.missing? fetched = (left.missing? fetched).or (right.missing? fetched) := by
  rw [missing?, h, List.find?_append]
  rfl

theorem exists_evaluate_of_missing?_eq_none (h : e.missing? fetched = none) :
    ∃ g, e.evaluate fetched = .ok g :=
  evaluate_of_mem_keys fun s hs => KeyMap.contains_iff.1 (missing?_eq_none.1 h s hs)

/-- Operands are evaluated from left to right, and the first one that fails decides. -/
theorem evaluate_of_missing? {s : Source} (h : e.missing? fetched = some s) :
    e.evaluate fetched = .error (.notFetched s.key) := by
  induction e with
  | source t =>
    have hs : s = t := by simpa [sources, eq_comm] using List.mem_of_find?_eq_some h
    have habsent : fetched.get? s.key = none := by
      simpa [KeyMap.contains_eq_isSome] using List.find?_some h
    rw [evaluate, ← hs, habsent]
  | inter left right ihl ihr | union left right ihl ihr =>
    rw [missing?_append rfl] at h
    rw [evaluate]
    cases hleft : left.missing? fetched with
    | some t =>
      rw [hleft, Option.some_or] at h
      rw [ihl (hleft.trans h)]
    | none =>
      rw [hleft, Option.none_or] at h
      obtain ⟨a, ha⟩ := exists_evaluate_of_missing?_eq_none hleft
      rw [ha, ihr h]
  | compl inner ih =>
    rw [evaluate, ih h]
    rfl

theorem evaluate_eq_error_iff : e.evaluate fetched = .error cause ↔
    ∃ s, e.missing? fetched = some s ∧ cause = .notFetched s.key := by
  constructor
  · intro h
    cases hmissing : e.missing? fetched with
    | none =>
      obtain ⟨g, hg⟩ := exists_evaluate_of_missing?_eq_none hmissing
      cases h.symm.trans hg
    | some s =>
      cases h.symm.trans (evaluate_of_missing? hmissing)
      exact ⟨s, rfl, rfl⟩
  · rintro ⟨s, hs, rfl⟩
    exact evaluate_of_missing? hs

theorem missing?_eq_some {s : Source} : e.missing? fetched = some s ↔ ∃ before after,
    e.sources = before ++ s :: after ∧ (∀ t ∈ before, fetched.contains t.key = true) ∧
      fetched.contains s.key = false := by
  rw [missing?, List.find?_eq_some_iff_append]
  simp only [Bool.not_eq_true', Bool.not_not]
  constructor
  · rintro ⟨habsent, before, after, hsources, hbefore⟩
    exact ⟨before, after, hsources, hbefore, habsent⟩
  · rintro ⟨before, after, hsources, hbefore, habsent⟩
    exact ⟨habsent, before, after, hsources, hbefore⟩

theorem exists_missing_iff :
    (∃ s, e.missing? fetched = some s) ↔ ∃ s ∈ e.sources, fetched.contains s.key = false := by
  rw [← Option.isSome_iff_exists, missing?, List.find?_isSome]
  simp only [Bool.not_eq_true']

theorem evaluate_congr
    (h : ∀ s ∈ e.sources, Fetched.SameIds (fetched.get? s.key) (others.get? s.key)) :
    e.evaluate fetched = e.evaluate others := by
  induction e with
  | source s =>
    have hs := h s (List.mem_singleton_self s)
    rw [evaluate, evaluate]
    generalize fetched.get? s.key = filed, others.get? s.key = filed' at hs ⊢
    cases hs with
    | none => rfl
    | some hids => exact congrArg Except.ok (Group.ofIds_congr hids)
  | inter left right ihl ihr | union left right ihl ihr =>
    rw [evaluate, evaluate, ihl fun s hs => h s (List.mem_append_left _ hs),
      ihr fun s hs => h s (List.mem_append_right _ hs)]
  | compl inner ih => rw [evaluate, evaluate, ih h]

/-- Evaluating an expression reads the lists under its own keys and of these the ids alone, in
whatever order and however often they occur. It fails exactly when a list is missing, and names the
key of the leftmost source without one. -/
theorem evaluate_reads_own_keys (e : Expr) (fetched : Fetched) :
    (∀ others : Fetched,
      (∀ s ∈ e.sources, Fetched.SameIds (fetched.get? s.key) (others.get? s.key)) →
        e.evaluate fetched = e.evaluate others) ∧
    ((∃ cause, e.evaluate fetched = .error cause) ↔
      ∃ s ∈ e.sources, fetched.contains s.key = false) ∧
    ∀ cause, e.evaluate fetched = .error cause ↔ ∃ before s after,
      e.sources = before ++ s :: after ∧ (∀ t ∈ before, fetched.contains t.key = true) ∧
        fetched.contains s.key = false ∧ cause = .notFetched s.key := by
  refine ⟨fun others same => evaluate_congr same, ?_, fun cause => ?_⟩
  · rw [← exists_missing_iff]
    simp [evaluate_eq_error_iff]
  · rw [evaluate_eq_error_iff]
    simp only [missing?_eq_some]
    constructor
    · rintro ⟨s, ⟨before, after, hsources, hbefore, habsent⟩, rfl⟩
      exact ⟨before, s, after, hsources, hbefore, habsent, rfl⟩
    · rintro ⟨before, s, after, hsources, hbefore, habsent, rfl⟩
      exact ⟨s, ⟨before, after, hsources, hbefore, habsent⟩, rfl⟩

/-- The lists of `mixed` in another order and with other repetitions, and a key of no source. -/
def mixedAgain : Fetched :=
  ((KeyMap.empty.insert "c/d" [9]).insert "b.following" [1, 2]).insert "a.followers" [1, 3, 1, 3]

/-- The source on the right has a list in neither place. -/
def lacking : Expr := .inter mixed (.source (.followers "z"))

theorem evaluate_reads_own_keys_lacking :
    (∀ s ∈ lacking.sources, Fetched.SameIds (mixedLists.get? s.key) (mixedAgain.get? s.key)) ∧
      lacking.evaluate mixedLists = lacking.evaluate mixedAgain ∧
      lacking.evaluate mixedLists = .error (.notFetched "z.followers") := by
  have same : ∀ s ∈ lacking.sources,
      Fetched.SameIds (mixedLists.get? s.key) (mixedAgain.get? s.key) := by
    have hfollowers : Fetched.SameIds (some [3, 1, 3]) (some [1, 3, 1, 3]) := .some (by grind)
    have hfollowing : Fetched.SameIds (some [2, 1, 2]) (some [1, 2]) := .some (by grind)
    intro s hs
    simp only [lacking, mixed, sources, List.cons_append, List.nil_append, List.mem_cons,
      List.not_mem_nil, or_false] at hs
    rcases hs with rfl | rfl | rfl | rfl
    · exact hfollowers
    · exact hfollowing
    · exact hfollowers
    · exact .none
  obtain ⟨hcongr, -, hcause⟩ := evaluate_reads_own_keys lacking mixedLists
  refine ⟨same, hcongr mixedAgain same,
    (hcause _).2 ⟨mixed.sources, .followers "z", [], rfl, ?_, ?_, rfl⟩⟩
  · decide
  · decide

end Expr

end AccountGroups
