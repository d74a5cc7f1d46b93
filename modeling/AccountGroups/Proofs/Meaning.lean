import AccountGroups.Execution
import AccountGroups.Proofs.Keys
import AccountGroups.Proofs.Outcomes

/-!
# The meaning of an expression

An expression is a formula in which each source stands for the fact that an id is in its list.
Under a client with fixed answers the group that a run gives contains the ids for which the formula
holds.
-/

namespace AccountGroups

theorem Group.contains_ofIds {ids : List AccountId} {id : AccountId} :
    (ofIds ids).contains id = true ↔ id ∈ ids := by
  simp [ofIds, contains]

namespace Expr

variable {σ : Type} {c : Client σ} {client : σ}

/-- The expression as a formula, where each source stands for what `p` says of it. -/
def Holds (p : Source → Prop) : Expr → Prop
  | source s => p s
  | inter left right => left.Holds p ∧ right.Holds p
  | union left right => left.Holds p ∨ right.Holds p
  | compl inner => ¬ inner.Holds p

/-- When each source has a list, there is a group, and it contains an id when the formula holds. -/
theorem evaluate_of_get? {fetched : Fetched} {p : AccountId → Source → Prop} {e : Expr}
    (h : ∀ s ∈ e.sources, ∃ ids, fetched.get? s.key = some ids ∧ ∀ id, id ∈ ids ↔ p id s) :
    ∃ g, e.evaluate fetched = .ok g ∧ ∀ id, g.contains id = true ↔ e.Holds (p id) := by
  induction e with
  | source s =>
    obtain ⟨ids, hget, hids⟩ := h s (by simp [sources])
    refine ⟨.ofIds ids, ?_, fun id => Group.contains_ofIds.trans (hids id)⟩
    simp only [evaluate, hget]
  | inter left right ihl ihr =>
    obtain ⟨a, ha, hca⟩ := ihl fun s hs => h s (by simp [sources, hs])
    obtain ⟨b, hb, hcb⟩ := ihr fun s hs => h s (by simp [sources, hs])
    refine ⟨a ∩ b, by simp only [evaluate, ha, hb], fun id => ?_⟩
    have hc : (a ∩ b).contains id = (a.contains id && b.contains id) := Group.contains_inter
    rw [hc, Bool.and_eq_true, hca, hcb, Holds]
  | union left right ihl ihr =>
    obtain ⟨a, ha, hca⟩ := ihl fun s hs => h s (by simp [sources, hs])
    obtain ⟨b, hb, hcb⟩ := ihr fun s hs => h s (by simp [sources, hs])
    refine ⟨a ∪ b, by simp only [evaluate, ha, hb], fun id => ?_⟩
    have hc : (a ∪ b).contains id = (a.contains id || b.contains id) := Group.contains_union
    rw [hc, Bool.or_eq_true, hca, hcb, Holds]
  | compl inner ih =>
    obtain ⟨g, hg, hcg⟩ := ih h
    refine ⟨g.compl, by simp only [evaluate, hg]; rfl, fun id => ?_⟩
    rw [Group.contains_compl, Holds, ← hcg, Bool.not_eq_true', Bool.not_eq_true]

theorem evaluate_of_mem_keys {fetched : Fetched} {e : Expr}
    (h : ∀ s ∈ e.sources, s.key ∈ fetched.keys) : ∃ g, e.evaluate fetched = .ok g := by
  have hlists : ∀ s ∈ e.sources, ∃ ids, fetched.get? s.key = some ids ∧
      ∀ id, id ∈ ids ↔ ∃ ids, fetched.get? s.key = some ids ∧ id ∈ ids := by
    intro s hs
    obtain ⟨ids, hids⟩ := KeyMap.mem_keys.1 (h s hs)
    exact ⟨ids, hids, by simp [hids]⟩
  obtain ⟨g, hg, -⟩ := evaluate_of_get? hlists
  exact ⟨g, hg⟩

theorem Canonical.eq_of_key {e : Expr} (h : e.Canonical) {s t : Source} (hs : s ∈ e.sources)
    (ht : t ∈ e.sources) (hk : s.key = t.key) : s = t :=
  Source.Canonical.eq_of_key (h s hs) (h t ht) hk

/-- In a canonical expression every source makes a task of its own. -/
theorem Canonical.mem_firsts {e : Expr} (h : e.Canonical) {s : Source} :
    s ∈ e.firsts ↔ s ∈ e.sources := by
  constructor
  · exact mem_of_mem_firsts
  · intro hs
    obtain ⟨t, ht, hk⟩ := List.mem_map.1 (mem_keys_firsts.2 (List.mem_map_of_mem hs))
    rwa [← h.eq_of_key (mem_of_mem_firsts ht) hs hk]

end Expr

open Loading

variable {σ : Type} {c : Client σ} {client : σ}

/-- With fixed answers each source is filed with the outcome of its own fetch. -/
theorem Expr.Canonical.mem_filed {e : Expr} (canonical : e.Canonical) (steady : c.Steady)
    {order : List Source} (hperm : order.Perm e.firsts) {s : Source} (hs : s ∈ e.sources)
    {o : FetchOutcome} :
    (s.key, o) ∈ filed (c.fetchAll client order).1 ↔ (c.fetch s client).1 = o := by
  rw [steady.fetchAll client client]
  simp only [filed, List.map_map, List.mem_map, Function.comp_apply, Prod.mk.injEq]
  constructor
  · rintro ⟨t, ht, hk, rfl⟩
    have ht' : t ∈ e.sources := canonical.mem_firsts.1 (hperm.mem_iff.1 ht)
    rw [canonical.eq_of_key ht' hs hk]
  · rintro rfl
    exact ⟨s, hperm.mem_iff.2 (canonical.mem_firsts.2 hs), rfl, rfl⟩

theorem Expr.Canonical.load {e : Expr} (canonical : e.Canonical) (steady : c.Steady)
    (workers : Workers) {schedule : Schedule}
    (finished : ((start e client).moves c (schedule e)).Finished) :
    (∃ fetched, (load c workers schedule e client).result = .ok fetched ∧
      ∀ s ∈ e.sources, ∃ ids, fetched.get? s.key = some ids ∧ (c.fetch s client).1 = .ok ids) ∨
    ∃ failure, (load c workers schedule e client).result = .error failure ∧
      ∃ s ∈ e.sources, ∃ error, (c.fetch s client).1 = .error error := by
  obtain ⟨order, hperm, h, -⟩ := finished.describes
  rcases h.results finished.ran with ⟨hall, fetched, hfetched, hget⟩ | ⟨key, error, failed⟩
  · refine .inl ⟨fetched, hfetched, fun s hs => ?_⟩
    have hfiled : (s.key, (c.fetch s client).1) ∈ filed (c.fetchAll client order).1 :=
      (canonical.mem_filed steady hperm hs).2 rfl
    obtain ⟨ids, hids⟩ : ∃ ids, (c.fetch s client).1 = .ok ids := hall _ hfiled
    rw [hids] at hfiled
    exact ⟨ids, (hget _ _).2 hfiled, hids⟩
  · refine .inr ⟨_, h.results_of_leftmost failed, ?_⟩
    obtain ⟨before, s, after, hsources, rfl, -, herror⟩ := failed
    have hs : s ∈ e.sources := hsources ▸ List.mem_append_right _ List.mem_cons_self
    exact ⟨s, hs, error, (canonical.mem_filed steady hperm hs).1 herror⟩

theorem Expr.execute_of_load {e : Expr} {workers : Workers} {schedule : Schedule}
    {fetched : Fetched} {g : Group}
    (loaded : (load c workers schedule e client).result = .ok fetched)
    (evaluated : e.evaluate fetched = .ok g) :
    (e.execute c workers schedule client).result = .ok ⟨g, fetched.size, e.sources.length⟩ := by
  simp only [execute, loaded, evaluated]

theorem Expr.execute_of_load_error {e : Expr} {workers : Workers} {schedule : Schedule}
    {failure : ExecutionError}
    (loaded : (load c workers schedule e client).result = .error failure) :
    (e.execute c workers schedule client).result = .error failure := by
  simp only [execute, loaded]

/-- The ids of a source under a client with fixed answers. -/
def Client.Lists (c : Client σ) (client : σ) (id : AccountId) (s : Source) : Prop :=
  ∃ ids, (c.fetch s client).1 = .ok ids ∧ id ∈ ids

theorem Expr.Canonical.execute {e : Expr} (canonical : e.Canonical) (steady : c.Steady)
    (workers : Workers) {schedule : Schedule}
    (finished : ((start e client).moves c (schedule e)).Finished) :
    (∃ r, (e.execute c workers schedule client).result = .ok r ∧
      (∀ s ∈ e.sources, ∃ ids, (c.fetch s client).1 = .ok ids) ∧
      ∀ id, r.group.contains id = true ↔ e.Holds (c.Lists client id)) ∨
    ∃ failure, (e.execute c workers schedule client).result = .error failure ∧
      ∃ s ∈ e.sources, ∃ error, (c.fetch s client).1 = .error error := by
  rcases canonical.load steady workers finished with
    ⟨fetched, hfetched, hget⟩ | ⟨failure, hfailure, hs⟩
  · have hlists : ∀ s ∈ e.sources, ∃ ids, fetched.get? s.key = some ids ∧
        ∀ id, id ∈ ids ↔ c.Lists client id s := by
      intro s hs
      obtain ⟨ids, hids, ho⟩ := hget s hs
      exact ⟨ids, hids, by simp [Client.Lists, ho]⟩
    obtain ⟨g, hg, hcontains⟩ := evaluate_of_get? hlists
    refine .inl ⟨_, Expr.execute_of_load hfetched hg, fun s hs => ?_, hcontains⟩
    obtain ⟨ids, -, ho⟩ := hget s hs
    exact ⟨ids, ho⟩
  · exact .inr ⟨failure, Expr.execute_of_load_error hfailure, hs⟩

/-- A run succeeds when each source can be fetched, and then it gives the ids for which the
expression holds, each source standing for its own list. -/
theorem execute_meaning (files : Files) (workers : Workers) (schedule : Schedule) (source : String)
    (e : Expr) (steady : c.Steady) (read : Expr.read files source = .ok e)
    (finished : ((start e client).moves c (schedule e)).Finished) :
    ((∃ r, (execute files c workers schedule source client).result = .ok r) ↔
      ∀ s ∈ e.sources, ∃ ids, (c.fetch s client).1 = .ok ids) ∧
    (∀ r, (execute files c workers schedule source client).result = .ok r →
      ∀ id, r.group.contains id = true ↔ e.Holds (c.Lists client id)) ∧
    ∀ s ∈ e.sources, ∀ t ∈ e.sources, s.key = t.key → s = t := by
  have canonical := Expr.canonical_of_read read
  have hexecute : execute files c workers schedule source client =
      e.execute c workers schedule client := by simp only [execute, read]
  rw [hexecute]
  rcases canonical.execute steady workers finished with
    ⟨r, hr, hall, hcontains⟩ | ⟨failure, hfailure, s, hs, error, herror⟩
  · refine ⟨⟨fun _ => hall, fun _ => ⟨r, hr⟩⟩, ?_, fun s hs t ht => canonical.eq_of_key hs ht⟩
    intro r' hr'
    rw [hr] at hr'
    cases hr'
    exact hcontains
  · refine ⟨⟨?_, ?_⟩, ?_, fun s hs t ht => canonical.eq_of_key hs ht⟩
    · rintro ⟨r, hr⟩
      rw [hfailure] at hr
      cases hr
    · intro hall
      obtain ⟨ids, hids⟩ := hall s hs
      rw [herror] at hids
      cases hids
    · intro r hr
      rw [hfailure] at hr
      cases hr

/-- Each account has the same followers and follows the same accounts. -/
def Client.uniform : Client Unit where
  followerIds _ _ := (.ok [1, 2], ())
  friendIds _ _ := (.ok [2, 3], ())
  listMembers _ _ _ := (.error (.notFound "list"), ())
  usersByHandle _ _ := (.ok [], ())
  usersById _ _ := (.ok [], ())

theorem execute_overlapping :
    Client.uniform.Steady ∧
      Expr.read .error "A.Followers & (b.following | a.followers)" = .ok .repeating ∧
      ((start .repeating ()).moves .uniform (overlapping .repeating)).Finished ∧
      ∃ r, (execute .error .uniform {} overlapping
        "A.Followers & (b.following | a.followers)" ()).result = .ok r ∧
        ∀ id, r.group.contains id = true ↔ Expr.repeating.Holds (Client.uniform.Lists () id) := by
  have steady : Client.uniform.Steady :=
    ⟨fun _ _ _ => rfl, fun _ _ _ => rfl, fun _ _ _ _ => rfl, fun _ _ _ => rfl, fun _ _ _ => rfl⟩
  have read : Expr.read .error "A.Followers & (b.following | a.followers)" = .ok .repeating := by
    decide
  have finished : ((start .repeating ()).moves .uniform (overlapping .repeating)).Finished :=
    ⟨rfl, by decide⟩
  have fetched : ∀ s ∈ Expr.repeating.sources, ∃ ids, (Client.uniform.fetch s ()).1 = .ok ids := by
    intro s hs
    simp only [Expr.repeating, Expr.sources, List.cons_append, List.nil_append, List.mem_cons,
      List.not_mem_nil, or_false] at hs
    rcases hs with rfl | rfl | rfl <;> exact ⟨_, rfl⟩
  obtain ⟨succeeds, meaning, -⟩ := execute_meaning .error {} overlapping _ _ steady read finished
  obtain ⟨r, hr⟩ := succeeds.2 fetched
  exact ⟨steady, read, finished, r, hr, meaning r hr⟩

end AccountGroups
