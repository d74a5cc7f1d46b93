import AccountGroups.Proofs.Outcomes
import AccountGroups.Proofs.Planning
import Mathlib.Data.List.Infix

/-!
# Tasks that run in turn

A single worker takes the tasks in the order of their registration, while sources may still be
registered. When such a run is over, the sources have been fetched in the order in which their keys
stand in the expression for the first time, and the first fetch that failed is reported.
-/

namespace AccountGroups

/-- The task that a move runs. -/
def Move.slot? : Move → Option Nat
  | .register => none
  | .run slot => some slot

/-- No task runs after one that was registered later. -/
def InTurn (ms : List Move) : Prop := (ms.filterMap Move.slot?).Pairwise (· < ·)

instance (ms : List Move) : Decidable (InTurn ms) :=
  inferInstanceAs (Decidable ((ms.filterMap Move.slot?).Pairwise (· < ·)))

/-- A worker that begins when all sources are registered takes the tasks in turn. -/
theorem inTurn_inOrder (e : Expr) : InTurn (inOrder e) := by
  have hregister (n : Nat) : (List.replicate n Move.register).filterMap Move.slot? = [] := by
    simp [List.filterMap_replicate, Move.slot?]
  have hrun (slots : List Nat) : (slots.map Move.run).filterMap Move.slot? = slots := by
    rw [List.filterMap_map]
    exact List.filterMap_some
  rw [InTurn, inOrder, List.filterMap_append, hregister, hrun]
  exact List.pairwise_lt_range

namespace Loading

variable {σ : Type} {c : Client σ} {client : σ} {seen : List Source} {l : Loading σ}

/-- The tasks that have run at a moment stand in the order of registration among the first `n`, and
none of the moves so far was for a later task. -/
theorem describes_moves_inTurn (c : Client σ) (e : Expr) (client : σ) {ms : List Move}
    (inTurn : InTurn ms) :
    ∃ seen ran n, seen ++ ((start e client).moves c ms).waiting = e.sources ∧
      ((start e client).moves c ms).Describes c client seen ran ∧
      ran.Sublist ((firsts seen).take n) ∧
      ∀ k, (∀ slot ∈ ms.filterMap Move.slot?, slot < k) → n ≤ k := by
  induction ms using List.reverseRecOn with
  | nil => exact ⟨[], [], 0, rfl, describes_start e, List.nil_sublist _, fun k _ => Nat.zero_le k⟩
  | append_singleton ms m ih =>
    rw [InTurn, List.filterMap_append, List.pairwise_append] at inTurn
    obtain ⟨hbefore, -, hlast⟩ := inTurn
    obtain ⟨seen, ran, n, hseen, h, hran, hn⟩ := ih hbefore
    have hbound : ∀ k, (∀ slot ∈ (ms ++ [m]).filterMap Move.slot?, slot < k) → n ≤ k := by
      intro k hk
      refine hn k fun slot hslot => hk slot ?_
      rw [List.filterMap_append]
      exact List.mem_append_left _ hslot
    rw [moves_concat]
    cases m with
    | register =>
      rcases h.move_register with hsame | ⟨s, hwaiting, hnext⟩
      · rw [hsame]
        exact ⟨seen, ran, n, hseen, h, hran, hbound⟩
      · have hstart : firsts seen <+: firsts (seen ++ [s]) := firsts_prefix seen [s]
        refine ⟨seen ++ [s], ran, n, ?_, hnext, hran.trans (hstart.take n).sublist, hbound⟩
        rw [List.append_assoc, List.singleton_append, ← hwaiting, hseen]
    | run slot =>
      rcases h.move_run slot with hsame | ⟨s, hs, hwaiting, hnext⟩
      · rw [hsame]
        exact ⟨seen, ran, n, hseen, h, hran, hbound⟩
      · refine ⟨seen, ran ++ [s], slot + 1, by rw [hwaiting, hseen], hnext, ?_, fun k hk => ?_⟩
        · have hle : n ≤ slot := hn slot fun i hi => hlast i hi slot (by simp [Move.slot?])
          obtain ⟨hlt, rfl⟩ := List.getElem?_eq_some_iff.1 hs
          rw [List.take_succ_eq_append_getElem hlt]
          exact (hran.trans (List.take_sublist_take_left hle)).append (List.Sublist.refl _)
        · exact hk slot (by simp [Move.slot?])

/-- A finished run in turn has fetched the sources in the order of their first places. -/
theorem Finished.describes_inTurn {e : Expr} {ms : List Move} (inTurn : InTurn ms)
    (finished : ((start e client).moves c ms).Finished) :
    ((start e client).moves c ms).Describes c client e.sources e.firsts := by
  obtain ⟨seen, ran, n, hseen, h, hran, -⟩ := describes_moves_inTurn c e client inTurn
  obtain ⟨rfl, hperm⟩ := h.perm_of_finished hseen finished
  have hsub : ran.Sublist e.firsts := hran.trans (List.take_sublist n _)
  rwa [hsub.eq_of_length hperm.length_eq] at h

/-- The fetch on the record has failed. -/
def failed (p : Source × FetchOutcome) : Bool := !p.2.isOk

theorem failed_eq_false_iff {p : Source × FetchOutcome} :
    failed p = false ↔ ∃ ids, p.2 = .ok ids := by
  obtain ⟨s, o⟩ := p
  cases o <;> simp [failed, Except.isOk, Except.toBool]

theorem failed_iff {p : Source × FetchOutcome} :
    failed p = true ↔ ∃ error, p.2 = .error error := by
  obtain ⟨s, o⟩ := p
  cases o <;> simp [failed, Except.isOk, Except.toBool]

theorem collect_eq_error_iff (made : List (Source × FetchOutcome)) (fetched : Fetched)
    (failure : ExecutionError) :
    Registry.collect fetched (made.map fun p => ⟨p.1.key, p.1, some p.2⟩) = .error failure ↔
      ∃ s error, made.find? failed = some (s, .error error) ∧ failure = .fetch s.key error := by
  induction made generalizing fetched with
  | nil => simp [Registry.collect]
  | cons p made ih =>
    obtain ⟨s, o⟩ := p
    cases o with
    | ok ids =>
      have hok : failed (s, .ok ids) = false := failed_eq_false_iff.2 ⟨ids, rfl⟩
      rw [List.map_cons, Registry.collect, List.find?_cons_of_neg (by simp [hok])]
      exact ih _
    | error error =>
      have hfailed : failed (s, .error error) = true := failed_iff.2 ⟨error, rfl⟩
      rw [List.map_cons, Registry.collect, List.find?_cons_of_pos hfailed]
      simp [eq_comm]

/-- The tasks of a run in turn are the fetches on its record. -/
theorem Describes.tasks_inTurn (h : l.Describes c client seen (firsts seen)) :
    l.registry.tasks =
      (c.fetchAll client (firsts seen)).1.map fun p => ⟨p.1.key, p.1, some p.2⟩ := by
  have hmade := Client.map_fst_fetchAll c client (firsts seen)
  calc l.registry.tasks
    _ = (firsts seen).map (taskAfter (c.fetchAll client (firsts seen)).1) := h.tasks
    _ = ((c.fetchAll client (firsts seen)).1.map Prod.fst).map
        (taskAfter (c.fetchAll client (firsts seen)).1) := by rw [hmade]
    _ = (c.fetchAll client (firsts seen)).1.map fun p => ⟨p.1.key, p.1, some p.2⟩ := by
      rw [List.map_map]
      refine List.map_congr_left fun p hp => ?_
      rw [Function.comp_apply, taskAfter, (Client.lookup_fetchAll h.nodup).2 hp]

/-- A run in turn reports the first fetch that failed. -/
theorem Describes.results_inTurn (h : l.Describes c client seen (firsts seen))
    (failure : ExecutionError) :
    l.registry.results = .error failure ↔
      ∃ s error, (c.fetchAll client (firsts seen)).1.find? failed = some (s, .error error) ∧
        failure = .fetch s.key error := by
  rw [Registry.results, h.tasks_inTurn]
  exact collect_eq_error_iff _ _ failure

end Loading

end AccountGroups
