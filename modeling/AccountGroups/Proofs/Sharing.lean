import AccountGroups.Expr.Json
import AccountGroups.Proofs.Meaning
import AccountGroups.Snapshot

/-!
# Answers shared by key

A run files the lists of ids by key, and all sources with a key are given the list of the leftmost
one. In a tree that was read this is their own list. Other trees can have two sources that collide,
and one of them is then answered for the other.
-/

namespace AccountGroups

open Loading

namespace Expr

/-- The source whose fetch answers for `s`: the leftmost one with its key. -/
def answering? (e : Expr) (s : Source) : Option Source :=
  e.sources.find? fun t => t.key == s.key

theorem answering?_of_mem {e : Expr} {s : Source} (hs : s ∈ e.sources) :
    ∃ t ∈ e.firsts, e.answering? s = some t ∧ t.key = s.key := by
  have hfound : (e.firsts.find? fun t => t.key == s.key).isSome := by
    obtain ⟨t, ht, hk⟩ := List.mem_map.1 (mem_keys_firsts.2 (List.mem_map_of_mem hs))
    exact List.find?_isSome.2 ⟨t, ht, beq_iff_eq.2 hk⟩
  obtain ⟨t, ht⟩ := Option.isSome_iff_exists.1 hfound
  have hkey := List.find?_some ht
  have hleftmost : e.answering? s = some t := (find?_firsts e.sources s.key).symm.trans ht
  exact ⟨t, List.mem_of_find?_eq_some ht, hleftmost, beq_iff_eq.1 hkey⟩

/-- Where nothing collides each source answers for itself. -/
theorem answering?_eq_self {e : Expr} {s : Source} (hs : s ∈ e.sources)
    (apart : ∀ s ∈ e.sources, ∀ t ∈ e.sources, ¬ s.Collides t) : e.answering? s = some s := by
  obtain ⟨t, ht, hanswering, hkey⟩ := answering?_of_mem hs
  have ht : t ∈ e.sources := mem_of_mem_firsts ht
  rcases Source.key_eq_iff.1 hkey with rfl | h | h
  · exact hanswering
  · exact (apart t ht s hs h).elim
  · exact (apart s hs t ht h).elim

theorem holds_congr {e : Expr} {p q : Source → Prop} (h : ∀ s ∈ e.sources, (p s ↔ q s)) :
    e.Holds p ↔ e.Holds q := by
  induction e with
  | source s => exact h s (by simp [sources])
  | inter left right ihl ihr =>
    exact and_congr (ihl fun s hs => h s (by simp [sources, hs]))
      (ihr fun s hs => h s (by simp [sources, hs]))
  | union left right ihl ihr =>
    exact or_congr (ihl fun s hs => h s (by simp [sources, hs]))
      (ihr fun s hs => h s (by simp [sources, hs]))
  | compl inner ih => exact not_congr (ih h)

end Expr

variable {σ : Type} {c : Client σ} {client : σ}

/-- The list with which the fetches on the record answer for a source has the id. -/
def Expr.Answered (e : Expr) (made : List (Source × FetchOutcome)) (id : AccountId)
    (s : Source) : Prop :=
  ∃ t ids, e.answering? s = some t ∧ (t, .ok ids) ∈ made ∧ id ∈ ids

/-- Each source of a tree is given the list of the leftmost one with its key. -/
theorem Expr.get?_of_results {e : Expr} {l : Loading σ} {order : List Source}
    (h : l.Describes c client e.sources order) (hperm : order.Perm e.firsts)
    (ran : ∀ t ∈ l.registry.tasks, t.outcome.isSome) {fetched : Fetched}
    (hfetched : l.registry.results = .ok fetched) {s : Source} (hs : s ∈ e.sources) :
    ∃ ids, fetched.get? s.key = some ids ∧
      ∀ id, id ∈ ids ↔ e.Answered (c.fetchAll client order).1 id s := by
  obtain ⟨t, ht, hanswering, hkey⟩ := answering?_of_mem hs
  obtain ⟨⟨_, o⟩, hmade, rfl⟩ : ∃ p ∈ (c.fetchAll client order).1, p.1 = t := by
    apply List.mem_map.1
    rw [Client.map_fst_fetchAll]
    exact hperm.mem_iff.2 ht
  obtain ⟨ids, rfl⟩ : ∃ ids, o = .ok ids :=
    (h.exists_results_iff ran).1 ⟨fetched, hfetched⟩ _ (List.mem_map_of_mem hmade)
  have hfiled : (s.key, .ok ids) ∈ filed (c.fetchAll client order).1 := by
    rw [← hkey]
    exact List.mem_map_of_mem hmade
  refine ⟨ids, (h.get?_of_results ran hfetched _ _).2 hfiled, fun id => ?_⟩
  constructor
  · intro hid
    exact ⟨_, ids, hanswering, hmade, hid⟩
  · rintro ⟨u, ids', hu, hmade', hid⟩
    cases hanswering.symm.trans hu
    have hsame := ((Client.lookup_fetchAll h.nodup).2 hmade).symm.trans
      ((Client.lookup_fetchAll h.nodup).2 hmade')
    cases hsame
    exact hid

/-- Two sources have one key exactly when they are the same or collide, and only names that are not
plain collide. A run of any tree answers each source by the fetch of the leftmost one with its key,
which is its own fetch when no sources of the tree collide. -/
theorem execute_answers (c : Client σ) (workers : Workers) (schedule : Schedule) (e : Expr)
    (client : σ) (finished : ((start e client).moves c (schedule e)).Finished) :
    (∀ s t : Source, s.key = t.key ∧ s ≠ t ↔ s.Collides t ∨ t.Collides s) ∧
    (∀ s t : Source, s.Collides t → ¬ (s.Plain ∧ t.Plain)) ∧
    ∃ order made last, c.fetchAll client order = (made, last) ∧ order.Perm e.firsts ∧
      (load c workers schedule e client).client = last ∧
      ∀ r, (e.execute c workers schedule client).result = .ok r →
        (∀ id, r.group.contains id = true ↔ e.Holds (e.Answered made id)) ∧
        ((∀ s ∈ e.sources, ∀ t ∈ e.sources, ¬ s.Collides t) →
          ∀ id, r.group.contains id = true ↔
            e.Holds fun s => ∃ ids, (s, .ok ids) ∈ made ∧ id ∈ ids) := by
  refine ⟨?_, fun s t h hplain => h.not_plain hplain.2 hplain.1, ?_⟩
  · intro s t
    constructor
    · rintro ⟨hkey, hne⟩
      exact (Source.key_eq_iff.1 hkey).resolve_left hne
    · rintro (h | h)
      · exact ⟨h.key_eq, h.ne⟩
      · exact ⟨h.key_eq.symm, h.ne.symm⟩
  · obtain ⟨order, hperm, h, -⟩ := finished.describes
    refine ⟨order, _, _, rfl, hperm, h.state, ?_⟩
    intro r hr
    have hgroup : ∀ id, r.group.contains id = true ↔
        e.Holds (e.Answered (c.fetchAll client order).1 id) := by
      cases hload : (load c workers schedule e client).result with
      | error failure =>
        rw [Expr.execute_of_load_error hload] at hr
        cases hr
      | ok fetched =>
        obtain ⟨g, hg, hcontains⟩ := Expr.evaluate_of_get? fun s hs =>
          Expr.get?_of_results h hperm finished.ran hload hs
        rw [Expr.execute_of_load hload hg] at hr
        cases hr
        exact hcontains
    refine ⟨hgroup, fun apart id => (hgroup id).trans (Expr.holds_congr fun s hs => ?_)⟩
    have hself : e.answering? s = some s := Expr.answering?_eq_self hs apart
    constructor
    · rintro ⟨t, ids, ht, hmade, hid⟩
      cases hself.symm.trans ht
      exact ⟨ids, hmade, hid⟩
    · rintro ⟨ids, hmade, hid⟩
      exact ⟨s, ids, hself, hmade, hid⟩

/-- No names of `a.followers & (b.following | a.followers)` have marks in them. -/
theorem execute_answers_overlapping :
    ((start .repeating ()).moves .uniform (overlapping .repeating)).Finished ∧
      (∀ s ∈ Expr.repeating.sources, ∀ t ∈ Expr.repeating.sources, ¬ s.Collides t) ∧
      ∃ order made last, Client.uniform.fetchAll () order = (made, last) ∧
        order.Perm Expr.repeating.firsts ∧
        ∀ r, (Expr.repeating.execute .uniform {} overlapping ()).result = .ok r →
          ∀ id, r.group.contains id = true ↔
            Expr.repeating.Holds fun s => ∃ ids, (s, .ok ids) ∈ made ∧ id ∈ ids := by
  have finished : ((start .repeating ()).moves .uniform (overlapping .repeating)).Finished :=
    ⟨rfl, by decide⟩
  have plain : ∀ s ∈ Expr.repeating.sources, s.Plain := by
    intro s hs
    simp only [Expr.repeating, Expr.sources, List.cons_append, List.nil_append, List.mem_cons,
      List.not_mem_nil, or_false] at hs
    rcases hs with rfl | rfl | rfl <;> simp [Source.Plain]
  obtain ⟨-, hplain, order, made, last, hmade, hperm, -, hrun⟩ :=
    execute_answers .uniform {} overlapping .repeating () finished
  have apart : ∀ s ∈ Expr.repeating.sources, ∀ t ∈ Expr.repeating.sources, ¬ s.Collides t :=
    fun s hs t ht h => hplain s t h ⟨plain s hs, plain t ht⟩
  exact ⟨finished, apart, order, made, last, hmade, hperm, fun r hr => (hrun r hr).2 apart⟩

/-- The members of the list `b.followers` of `a`, and the followers of `a/b`. -/
def Expr.colliding : Expr :=
  .union (.source (.membersOf "a" "b.followers")) (.source (.followersOf "a/b"))

def Snapshot.colliding : Snapshot :=
  (empty.withFollowers "a/b" [1]).withList "a" "b.followers" [2]

/-- Two sources can be built, and be read from a tree, that have one key and ask for different
lists. The run of their union leaves out the follower. -/
theorem key_not_identifying :
    (Source.membersOf "a" "b.followers").key = (Source.followersOf "a/b").key ∧
      Source.membersOf "a" "b.followers" ≠ Source.followersOf "a/b" ∧
      (Source.membersOf "a" "b.followers").request? ≠ (Source.followersOf "a/b").request? ∧
      Expr.ofJson? Expr.colliding.toJson = some .colliding ∧
      (Snapshot.client.fetch (Source.followersOf "a/b") .colliding).1 = .ok [1] ∧
      ∃ r, (Expr.colliding.execute Snapshot.client {} inOrder .colliding).result = .ok r ∧
        r.fetches = 1 ∧ r.group.contains 1 = false ∧ r.group.contains 2 = true := by
  refine ⟨by decide, by decide, by decide, by decide,
    by decide, ⟨.ofIds [2], 1, 2⟩, by decide, rfl, ?_⟩
  decide

end AccountGroups
