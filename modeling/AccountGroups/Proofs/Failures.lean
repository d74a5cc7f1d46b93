import AccountGroups.Proofs.Sharing
import AccountGroups.Proofs.Throttling

/-!
# How a run of a tree fails

A run that is over has filed a list under the key of every source, also where sources share a key,
unless a fetch has failed. So the group can always be computed from what was loaded, and a run fails
only with the error that the client gave for a source of the tree.
-/

namespace AccountGroups

theorem KeyMap.contains_iff {α : Type} {m : KeyMap α} {key : String} :
    m.contains key = true ↔ key ∈ m.keys := by
  simp only [contains, keys, List.any_eq_true, beq_iff_eq, List.mem_map]

open Loading

variable {σ : Type} {c : Client σ} {client : σ}

section Loaded

variable {e : Expr} {order : List Source} {l : Loading σ}
variable (h : l.Describes c client e.sources order)
include h

theorem Loading.Describes.contains_of_results (done : ∀ t ∈ l.registry.tasks, t.outcome.isSome)
    {fetched : Fetched} (hfetched : l.registry.results = .ok fetched) :
    ∀ s ∈ e.sources, fetched.contains s.key = true := by
  intro s hs
  rw [KeyMap.contains_iff, h.mem_keys_of_results done hfetched]
  exact List.mem_map_of_mem hs

/-- Loading fails with the client's answer to the fetch that was made for a key. -/
theorem Loading.Describes.mem_made_of_error (done : ∀ t ∈ l.registry.tasks, t.outcome.isSome)
    {failure : ExecutionError} (hfailure : l.registry.results = .error failure) :
    ∃ s ∈ e.firsts, ∃ error, failure = .fetch s.key error ∧
      (s, .error error) ∈ (c.fetchAll client order).1 := by
  obtain ⟨key, error, failed, rfl⟩ := (h.results_eq_error_iff done failure).1 hfailure
  obtain ⟨-, -, -, -, -, -, hfiled⟩ := failed
  obtain ⟨⟨s, o⟩, hmade, he⟩ := List.mem_map.1 hfiled
  cases he
  have hran : s ∈ order := by
    rw [← Client.map_fst_fetchAll c client order]
    exact List.mem_map_of_mem hmade
  exact ⟨s, h.subset hran, error, rfl, hmade⟩

end Loaded

section Finished

variable {schedule : Schedule} {e : Expr}
variable (finished : ((start e client).moves c (schedule e)).Finished)
include finished

theorem evaluates_of_load (workers : Workers) {fetched : Fetched}
    (hload : (load c workers schedule e client).result = .ok fetched) :
    (∀ s ∈ e.sources, fetched.contains s.key = true) ∧ ∃ g, e.evaluate fetched = .ok g := by
  obtain ⟨order, -, h, -⟩ := finished.describes
  have hall := h.contains_of_results finished.ran hload
  exact ⟨hall, Expr.evaluate_of_mem_keys fun s hs => KeyMap.contains_iff.1 (hall s hs)⟩

/-- A run fails as loading does, and only then. -/
theorem Expr.execute_eq_error_iff (workers : Workers) (failure : ExecutionError) :
    (e.execute c workers schedule client).result = .error failure ↔
      (load c workers schedule e client).result = .error failure := by
  refine ⟨fun hfailure => ?_, Expr.execute_of_load_error⟩
  cases hload : (load c workers schedule e client).result with
  | error cause =>
    rw [Expr.execute_of_load_error hload] at hfailure
    cases hfailure
    rfl
  | ok fetched =>
    obtain ⟨-, g, hg⟩ := evaluates_of_load finished workers hload
    rw [Expr.execute_of_load hload hg] at hfailure
    cases hfailure

end Finished

/-- In a run that is over no key is missing and no task is left. It gives a group when all fetches
have succeeded, and else fails as loading does: with the key of a source of the tree and the error
that the client gave when this source was fetched. -/
theorem execute_fails_by_fetch (c : Client σ) (workers : Workers) (schedule : Schedule) (e : Expr)
    (client : σ) (finished : ((start e client).moves c (schedule e)).Finished) :
    ∃ order made last, c.fetchAll client order = (made, last) ∧ order.Perm e.firsts ∧
      (load c workers schedule e client).client = last ∧
      (∀ fetched, (load c workers schedule e client).result = .ok fetched →
        (∀ s ∈ e.sources, fetched.contains s.key = true) ∧ ∃ g, e.evaluate fetched = .ok g) ∧
      (∀ key, (load c workers schedule e client).result ≠ .error (.abandoned key)) ∧
      ((∃ r, (e.execute c workers schedule client).result = .ok r) ↔
        ∀ p ∈ made, ∃ ids, p.2 = .ok ids) ∧
      (∀ failure, (e.execute c workers schedule client).result = .error failure ↔
        (load c workers schedule e client).result = .error failure) ∧
      ∀ failure, (e.execute c workers schedule client).result = .error failure →
        ∃ s ∈ e.firsts, ∃ error, failure = .fetch s.key error ∧ (s, .error error) ∈ made := by
  obtain ⟨order, hperm, h, -⟩ := finished.describes
  have fails := Expr.execute_eq_error_iff finished workers
  refine ⟨order, _, _, rfl, hperm, h.state, fun fetched => evaluates_of_load finished workers, ?_,
    ?_, fails, fun failure hfailure => ?_⟩
  · intro key habandoned
    obtain ⟨s, -, error, hfailure, -⟩ := h.mem_made_of_error finished.ran habandoned
    cases hfailure
  · rw [Expr.exists_execute_iff workers finished]
    exact (h.exists_results_iff finished.ran).trans List.forall_mem_map
  · exact h.mem_made_of_error finished.ran ((fails failure).1 hfailure)

/-- Both sources have the key `a/b.followers`, and the members of the list are asked for. -/
theorem execute_fails_by_fetch_colliding :
    ((start .colliding 0).moves .failing (overlapping .colliding)).Finished ∧
      (Expr.colliding.execute .failing {} overlapping 0).result =
        .error (.fetch "a/b.followers" (.service "0")) ∧
      ∃ order made last, Client.failing.fetchAll 0 order = (made, last) ∧
        order.Perm Expr.colliding.firsts ∧
        ∃ s ∈ Expr.colliding.firsts, "a/b.followers" = s.key ∧
          (s, .error (.service "0")) ∈ made := by
  have finished : ((start .colliding 0).moves .failing (overlapping .colliding)).Finished :=
    ⟨rfl, by decide⟩
  have hfailure : (Expr.colliding.execute .failing {} overlapping 0).result =
      .error (.fetch "a/b.followers" (.service "0")) := by decide
  obtain ⟨order, made, last, hmade, hperm, -, -, -, -, -, hfails⟩ :=
    execute_fails_by_fetch .failing {} overlapping .colliding 0 finished
  obtain ⟨s, hs, error, heq, hs'⟩ := hfails _ hfailure
  obtain ⟨hkey, rfl⟩ := ExecutionError.fetch.inj heq
  exact ⟨finished, hfailure, order, made, last, hmade, hperm, s, hs, hkey, hs'⟩

end AccountGroups
