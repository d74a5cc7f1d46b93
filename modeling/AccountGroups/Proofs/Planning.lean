import AccountGroups.Proofs.Meaning
import Mathlib.Algebra.Ring.Nat
import Mathlib.Data.List.Destutter

/-!
# Plans and runs

A plan lists the sources that make tasks, in the order of registration, each with the number of
places that share its fetch. So the plan of a text tells the tasks, the calls and the counts of
every run of it, and a text that has no plan fails to run before any call.
-/

namespace AccountGroups

theorem keys_firsts (ss : List Source) :
    (firsts ss).map Source.key = (ss.map Source.key).eraseDups := by
  induction ss using List.reverseRecOn with
  | nil => rfl
  | append_singleton ss s ih =>
    rw [firsts_concat, List.map_append, List.map_singleton, eraseDups_concat]
    by_cases hk : s.key ∈ ss.map Source.key
    · rw [if_pos (mem_keys_firsts.2 hk), if_pos hk, ih]
    · rw [if_neg (mt mem_keys_firsts.1 hk), if_neg hk, List.map_append, ih]
      rfl

/-- However the keys of sources are listed without repetition, they are as many as the sources that
make tasks. -/
theorem length_firsts {ss : List Source} {keys : List String} (nodup : keys.Nodup)
    (h : ∀ key, key ∈ keys ↔ key ∈ ss.map Source.key) : keys.length = (firsts ss).length := by
  have hperm : keys.Perm ((firsts ss).map Source.key) :=
    (List.perm_ext_iff_of_nodup nodup (nodup_keys_firsts ss)).2 fun key =>
      (h key).trans mem_keys_firsts.symm
  rw [hperm.length_eq, List.length_map]

theorem Ascending.nodup {α : Type} [LT α] [LE α] [Std.IsLinearOrder α] [Std.LawfulOrderLT α]
    (s : Ascending α) : s.toList.Nodup := by
  refine s.ascending.imp ?_
  rintro a b hlt rfl
  exact Std.lt_irrefl hlt

theorem KeyMap.nodup_keys {α : Type} (m : KeyMap α) : m.keys.Nodup := by
  have h : (m.entries.map fun e => e.1).Pairwise (· < ·) := List.pairwise_map.2 m.ascending
  refine h.imp ?_
  rintro a b hlt rfl
  exact String.lt_irrefl _ hlt

theorem size_distinctKeys (e : Expr) : e.distinctKeys.size = e.firsts.length :=
  length_firsts e.distinctKeys.nodup fun _ => Ascending.mem_ofList

theorem mem_destutter {α : Type} [DecidableEq α] {a : α} {as : List α} :
    a ∈ as.destutter (· ≠ ·) ↔ a ∈ as := by
  refine ⟨fun h => (List.destutter_sublist _ as).subset h, fun h => ?_⟩
  cases as with
  | nil => cases h
  | cons b bs =>
    induction bs generalizing b with
    | nil => exact h
    | cons c bs ih =>
      rw [List.destutter_cons_cons]
      split
      · rcases List.mem_cons.1 h with rfl | h
        · exact List.mem_cons_self
        · exact List.mem_cons_of_mem _ (ih c h)
      · next hbc =>
        rw [not_not] at hbc
        subst hbc
        exact ih b (by simpa using h)

theorem pairwise_destutter {keys : List String} (h : keys.Pairwise (· ≤ ·)) :
    (keys.destutter (· ≠ ·)).Pairwise (· < ·) := by
  cases keys with
  | nil => exact .nil
  | cons a keys =>
    induction keys generalizing a with
    | nil => exact List.pairwise_singleton _ a
    | cons b keys ih =>
      obtain ⟨ha, hkeys⟩ := List.pairwise_cons.1 h
      have hab : a ≤ b := ha b List.mem_cons_self
      rw [List.destutter_cons_cons]
      split
      · next hne =>
        refine List.pairwise_cons.2 ⟨fun key hkey => ?_, ih b hkeys⟩
        have hmem : key ∈ b :: keys := mem_destutter.1 hkey
        have hle : b ≤ key := by
          rcases List.mem_cons.1 hmem with rfl | hmem
          · exact String.le_refl key
          · exact (List.pairwise_cons.1 hkeys).1 key hmem
        have hlt : a < b := String.not_le.1 fun hba => hne (String.le_antisymm hab hba)
        exact Std.lt_of_lt_of_le hlt hle
      · next heq =>
        rw [not_not] at heq
        subst heq
        exact ih a hkeys

theorem sorted_mergeSort (keys : List String) :
    (keys.mergeSort fun a b => decide (a ≤ b)).Pairwise (· ≤ ·) := by
  have htrans : ∀ a b c : String, decide (a ≤ b) = true → decide (b ≤ c) = true →
      decide (a ≤ c) = true := by
    intro a b c hab hbc
    rw [decide_eq_true_eq] at hab hbc ⊢
    exact String.le_trans hab hbc
  have htotal : ∀ a b : String, (decide (a ≤ b) || decide (b ≤ a)) = true := by
    intro a b
    rw [Bool.or_eq_true, decide_eq_true_eq, decide_eq_true_eq]
    exact String.le_total a b
  exact (List.pairwise_mergeSort htrans htotal keys).imp of_decide_eq_true

/-- Sorting all keys and dropping those that follow an equal one gives the distinct keys. -/
theorem toList_distinctKeys (e : Expr) :
    e.distinctKeys.toList =
      ((e.sources.map Source.key).mergeSort fun a b => decide (a ≤ b)).destutter (· ≠ ·) := by
  let sorted := (e.sources.map Source.key).mergeSort fun a b => decide (a ≤ b)
  let distinct : Ascending String :=
    ⟨sorted.destutter (· ≠ ·), pairwise_destutter (sorted_mergeSort _)⟩
  have heq : e.distinctKeys = distinct := by
    apply Ascending.ext
    intro key
    rw [Expr.distinctKeys, Ascending.mem_ofList, Ascending.mem_iff, mem_destutter,
      List.mem_mergeSort]
  rw [heq]

namespace Plan

theorem note_of_not_mem {s : Source} {fs : List PlannedFetch}
    (h : s.key ∉ fs.map PlannedFetch.key) : note s fs = fs ++ [⟨s.key, s.operation, 1⟩] := by
  induction fs with
  | nil => rfl
  | cons f fs ih =>
    rw [List.map_cons, List.mem_cons, not_or] at h
    have hne : (f.key == s.key) = false := beq_eq_false_iff_ne.2 (Ne.symm h.1)
    rw [note, hne, ih h.2]
    rfl

theorem note_of_mem {s : Source} {fs : List PlannedFetch}
    (nodup : (fs.map PlannedFetch.key).Nodup) (h : s.key ∈ fs.map PlannedFetch.key) :
    note s fs = fs.map fun f =>
      if f.key = s.key then { f with occurrences := f.occurrences + 1 } else f := by
  induction fs with
  | nil => cases h
  | cons f fs ih =>
    rw [List.map_cons, List.nodup_cons] at nodup
    rw [note, List.map_cons]
    by_cases hf : f.key = s.key
    · have hrest : fs.map (fun g => if g.key = s.key then
          { g with occurrences := g.occurrences + 1 } else g) = fs := by
        refine (List.map_congr_left fun g hg => ?_).trans (List.map_id fs)
        have hne : g.key ≠ s.key := fun he => nodup.1 (hf ▸ he ▸ List.mem_map_of_mem hg)
        rw [if_neg hne]
        rfl
      rw [if_pos (beq_iff_eq.2 hf), if_pos hf, hrest]
    · have hmem : s.key ∈ fs.map PlannedFetch.key := by
        rw [List.map_cons, List.mem_cons] at h
        exact h.resolve_left (Ne.symm hf)
      have hbeq : ¬ (f.key == s.key) = true := fun hb => hf (beq_iff_eq.1 hb)
      rw [if_neg hbeq, if_neg hf, ih nodup.2 hmem]

/-- What a plan says about the key of a source. -/
def planned (ss : List Source) (s : Source) : PlannedFetch :=
  ⟨s.key, s.operation, ss.countP fun t => t.key == s.key⟩

theorem map_key_planned (ss ts : List Source) :
    (ts.map (planned ss)).map PlannedFetch.key = ts.map Source.key := by
  rw [List.map_map]
  rfl

/-- Each key is planned with the source that makes its task, and counted in all places. -/
theorem foldl_note (ss : List Source) :
    ss.foldl (fun fs s => note s fs) [] = (firsts ss).map (planned ss) := by
  induction ss using List.reverseRecOn with
  | nil => rfl
  | append_singleton ss s ih =>
    rw [List.foldl_append, ih, List.foldl_cons, List.foldl_nil, firsts_concat]
    have hkeys := map_key_planned ss (firsts ss)
    by_cases hk : s.key ∈ (firsts ss).map Source.key
    · rw [if_pos hk, note_of_mem (hkeys ▸ nodup_keys_firsts ss) (hkeys ▸ hk), List.map_map]
      refine List.map_congr_left fun t _ => ?_
      by_cases ht : t.key = s.key
      · simp [planned, ht]
      · simp [planned, ht, Ne.symm ht]
    · have hcount : ss.countP (fun t => t.key == s.key) = 0 := by
        rw [List.countP_eq_zero]
        intro t ht he
        exact hk (mem_keys_firsts.2 (beq_iff_eq.1 he ▸ List.mem_map_of_mem ht))
      have hold : (firsts ss).map (planned (ss ++ [s])) = (firsts ss).map (planned ss) := by
        refine List.map_congr_left fun t ht => ?_
        have hne : s.key ≠ t.key := fun he => hk (he ▸ List.mem_map_of_mem ht)
        simp [planned, hne]
      rw [if_neg hk, note_of_not_mem (hkeys ▸ hk), List.map_append, hold]
      simp [planned, hcount]

theorem fetches_ofExpr (e : Expr) : (ofExpr e).fetches = e.firsts.map (planned e.sources) :=
  foldl_note e.sources

theorem keys_ofExpr (e : Expr) :
    (ofExpr e).fetches.map PlannedFetch.key = e.firsts.map Source.key := by
  rw [fetches_ofExpr, map_key_planned]

theorem sum_occurrences_note (s : Source) (fs : List PlannedFetch) :
    ((note s fs).map PlannedFetch.occurrences).sum =
      (fs.map PlannedFetch.occurrences).sum + 1 := by
  induction fs with
  | nil => rfl
  | cons f fs ih =>
    rw [note]
    split
    · simp only [List.map_cons, List.sum_cons]
      omega
    · simp only [List.map_cons, List.sum_cons, ih]
      omega

theorem sum_occurrences (e : Expr) :
    ((ofExpr e).fetches.map PlannedFetch.occurrences).sum = e.sources.length := by
  show ((e.sources.foldl (fun fs s => note s fs) []).map PlannedFetch.occurrences).sum = _
  induction e.sources using List.reverseRecOn with
  | nil => rfl
  | append_singleton ss s ih =>
    rw [List.foldl_append, List.foldl_cons, List.foldl_nil, sum_occurrences_note, ih,
      List.length_append, List.length_singleton]

theorem length_fetches_le (e : Expr) : (ofExpr e).fetches.length ≤ (ofExpr e).references := by
  rw [fetches_ofExpr, List.length_map]
  exact List.Nodup.length_le_of_subset (nodup_firsts _) fun s => mem_of_mem_firsts

end Plan

/-- What a call is called. -/
def Request.name : Request → String
  | followerIds _ => "follower_ids"
  | friendIds _ => "friend_ids"
  | listMembers .. => "list_members"
  | usersByHandle _ => "users_by_handle"
  | usersById _ => "users_by_id"

/-- A source is fetched by the call that its operation names, or by none. -/
theorem Source.request?_cases (s : Source) :
    (s.operation = .none ∧ s.request? = none) ∨
      (s.operation ≠ .none ∧ ∃ r, s.request? = some r ∧ r.name = s.operation.name) := by
  cases s with
  | followers | following | members => exact .inr ⟨by simp [operation], _, rfl, rfl⟩
  | handles set =>
    by_cases h : set.isEmpty = true
    · exact .inl ⟨if_pos h, if_pos h⟩
    · have hop : (handles set).operation = .usersByHandle := if_neg h
      exact .inr ⟨by simp [hop], _, if_neg h, by rw [hop]; rfl⟩

/-- The fetch makes a call. -/
def PlannedFetch.makesCall (f : PlannedFetch) : Bool := f.operation != .none

/-- The call of a planned fetch, made for a source with its key. -/
def PlannedFetch.Calls (ss : List Source) (f : PlannedFetch) (r : Request) : Prop :=
  r.name = f.operation.name ∧ ∃ s ∈ ss, s.key = f.key ∧ s.request? = some r

theorem Plan.calls_planned {ss ts : List Source} (h : ts ⊆ ss) :
    List.Forall₂ (PlannedFetch.Calls ss)
      ((ts.map (planned ss)).filter PlannedFetch.makesCall)
      (ts.filterMap Source.request?) := by
  induction ts with
  | nil => exact .nil
  | cons s ts ih =>
    obtain ⟨hs, hts⟩ := List.cons_subset.1 h
    rcases s.request?_cases with ⟨hop, hr⟩ | ⟨hop, r, hr, hname⟩
    · have hno : ¬ (planned ss s).makesCall = true := by
        simp [PlannedFetch.makesCall, planned, hop]
      rw [List.map_cons, List.filter_cons_of_neg hno, List.filterMap_cons_none hr]
      exact ih hts
    · have hyes : (planned ss s).makesCall = true := by
        simp [PlannedFetch.makesCall, planned, hop]
      rw [List.map_cons, List.filter_cons_of_pos hyes, List.filterMap_cons_some hr]
      exact .cons ⟨hname, s, hs, rfl, hr⟩ (ih hts)

open Loading

variable {σ : Type} {c : Client σ} {client : σ}

/-- The record of the calls changes no result. -/
theorem execute_recorded (files : Files) (c : Client σ) (workers : Workers) (schedule : Schedule)
    (source : String) (client : σ) :
    (execute files c.recorded workers schedule source (client, [])).result =
      (execute files c workers schedule source client).result := by
  cases hread : Expr.read files source with
  | error cause => simp only [execute, hread]
  | ok e =>
    have hload : (load c.recorded workers schedule e (client, [])).result =
        (load c workers schedule e client).result := by
      simp only [load, moves_recorded c]
      rfl
    simp only [execute, hread, Expr.execute, hload]
    cases (load c workers schedule e client).result with
    | error failure => rfl
    | ok fetched => cases hg : e.evaluate fetched <;> simp only [hg]

/-- A run that is over gives a group, from one list for each key, or the failure of a fetch. -/
theorem Expr.execute_of_finished {e : Expr} (workers : Workers) {schedule : Schedule}
    (finished : ((start e client).moves c (schedule e)).Finished) :
    (∃ g, (e.execute c workers schedule client).result =
      .ok ⟨g, e.firsts.length, e.sources.length⟩) ∨
    ∃ key error, (e.execute c workers schedule client).result = .error (.fetch key error) := by
  obtain ⟨order, hperm, h, -⟩ := finished.describes
  rcases h.results finished.ran with ⟨-, fetched, hfetched, -⟩ | ⟨key, error, failed⟩
  · have hkeys : ∀ key, key ∈ fetched.keys ↔ key ∈ e.sources.map Source.key :=
      h.mem_keys_of_results finished.ran hfetched
    have hsize : fetched.size = e.firsts.length :=
      calc fetched.size
        _ = fetched.keys.length := (List.length_map _).symm
        _ = e.firsts.length := length_firsts fetched.nodup_keys hkeys
    obtain ⟨g, hg⟩ := Expr.evaluate_of_mem_keys fun s hs =>
      (hkeys s.key).2 (List.mem_map_of_mem hs)
    refine .inl ⟨g, ?_⟩
    rw [Expr.execute_of_load hfetched hg, hsize]
  · refine .inr ⟨key, error, ?_⟩
    have hload : (load c workers schedule e client).result = .error (.fetch key error) :=
      h.results_of_leftmost failed
    exact Expr.execute_of_load_error hload

/-- A text without a plan, and no other, fails as an expression before any call, with the same
error. Otherwise its plan tells the tasks in the order of registration, one call for each fetch that
needs one, and all counts. -/
theorem explain_predicts_run (files : Files) (c : Client σ) (workers : Workers)
    (schedule : Schedule) (source : String) (client : σ)
    (finished : ∀ e, Expr.read files source = .ok e →
      ((start e client).moves c (schedule e)).Finished) :
    (execute files c.recorded workers schedule source (client, [])).result =
      (execute files c workers schedule source client).result ∧
    (∀ failure, explain files source = .error failure ↔
      (∃ cause, failure = .expression cause) ∧
      (execute files c workers schedule source client).result = .error failure ∧
      (execute files c.recorded workers schedule source (client, [])).client.2 = []) ∧
    ∀ plan, explain files source = .ok plan → ∃ e, Expr.read files source = .ok e ∧
      plan = .ofExpr e ∧
      plan.fetches.map PlannedFetch.key =
        ((start e client).moves c (schedule e)).registry.tasks.map Task.key ∧
      plan.fetches.map PlannedFetch.key = (e.sources.map Source.key).eraseDups ∧
      (∃ calls, List.Forall₂ (PlannedFetch.Calls e.sources)
          (plan.fetches.filter PlannedFetch.makesCall) calls ∧
        (load c.recorded workers schedule e (client, [])).client.2.Perm calls) ∧
      (∀ f ∈ plan.fetches, f.occurrences = e.sources.countP fun s => s.key == f.key) ∧
      (plan.fetches.map PlannedFetch.occurrences).sum = plan.references ∧
      plan.references = e.sources.length ∧
      e.distinctKeys.toList =
        ((e.sources.map Source.key).mergeSort fun a b => decide (a ≤ b)).destutter (· ≠ ·) ∧
      e.distinctKeys.size = plan.fetches.length ∧
      plan.fetches.length ≤ plan.references ∧
      plan.shared + plan.fetches.length = plan.references ∧
      ∀ r, (execute files c workers schedule source client).result = .ok r →
        r.fetches = plan.fetches.length ∧ r.references = plan.references := by
  refine ⟨execute_recorded files c workers schedule source client, ?_, ?_⟩
  · intro failure
    cases hread : Expr.read files source with
    | error cause =>
      simp only [explain, execute, hread, Except.error.injEq]
      constructor
      · rintro rfl
        exact ⟨⟨cause, rfl⟩, rfl, trivial⟩
      · rintro ⟨-, rfl, -⟩
        rfl
    | ok e =>
      simp only [explain, execute, hread, reduceCtorEq, false_iff]
      rintro ⟨⟨cause, rfl⟩, hfailure, -⟩
      rcases Expr.execute_of_finished workers (finished e hread) with
        ⟨g, hok⟩ | ⟨key, error, herror⟩
      · rw [hok] at hfailure
        cases hfailure
      · rw [herror] at hfailure
        cases hfailure
  · intro plan hplan
    cases hread : Expr.read files source with
    | error cause => simp [explain, hread] at hplan
    | ok e =>
      simp only [explain, hread, Except.ok.injEq] at hplan
      subst hplan
      obtain ⟨order, hperm, h, hcalls⟩ := (finished e hread).describes
      have hlength : (Plan.ofExpr e).fetches.length = e.firsts.length := by
        rw [Plan.fetches_ofExpr, List.length_map]
      refine ⟨e, rfl, rfl, ?_, ?_, ?_, ?_, Plan.sum_occurrences e, rfl, toList_distinctKeys e, ?_,
        Plan.length_fetches_le e, Nat.sub_add_cancel (Plan.length_fetches_le e), ?_⟩
      · rw [Plan.keys_ofExpr, h.keys]
        rfl
      · rw [Plan.keys_ofExpr]
        exact keys_firsts e.sources
      · refine ⟨e.firsts.filterMap Source.request?, ?_, ?_⟩
        · rw [Plan.fetches_ofExpr]
          exact Plan.calls_planned fun s => mem_of_mem_firsts
        · have hmade : (load c.recorded workers schedule e (client, [])).client.2 =
              order.filterMap Source.request? := congrArg Prod.snd hcalls
          rw [hmade]
          exact hperm.filterMap _
      · intro f hf
        rw [Plan.fetches_ofExpr] at hf
        obtain ⟨s, -, rfl⟩ := List.mem_map.1 hf
        rfl
      · rw [size_distinctKeys, hlength]
      · intro r hr
        simp only [execute, hread] at hr
        rcases Expr.execute_of_finished workers (finished e hread) with
          ⟨g, hok⟩ | ⟨key, error, herror⟩
        · rw [hok] at hr
          cases hr
          exact ⟨hlength.symm, rfl⟩
        · rw [herror] at hr
          cases hr

/-- `a.followers & ({} | a.followers)` -/
def Expr.idle : Expr :=
  .inter (.source (.followers "a"))
    (.union (.source (.handles .empty)) (.source (.followers "a")))

theorem explain_idle :
    Expr.read .error "a.followers & ({} | A.followers)" = .ok .idle ∧
      ((start .idle ()).moves .uniform (overlapping .idle)).Finished ∧
      ∃ plan, explain .error "a.followers & ({} | A.followers)" = .ok plan ∧
        plan.fetches = [⟨"a.followers", .followerIds, 2⟩, ⟨"{}", .none, 1⟩] ∧
        plan.shared + plan.fetches.length = plan.references ∧
        ∃ calls, List.Forall₂ (PlannedFetch.Calls Expr.idle.sources)
            (plan.fetches.filter PlannedFetch.makesCall) calls ∧
          (load Client.uniform.recorded {} overlapping .idle ((), [])).client.2.Perm calls := by
  have read : Expr.read .error "a.followers & ({} | A.followers)" = .ok .idle := by
    decide
  have finished : ∀ e, Expr.read .error "a.followers & ({} | A.followers)" = .ok e →
      ((start e ()).moves .uniform (overlapping e)).Finished := by
    intro e he
    cases read.symm.trans he
    exact ⟨rfl, by decide⟩
  have explained : explain .error "a.followers & ({} | A.followers)" =
      .ok (.ofExpr .idle) := by
    simp only [explain, read]
  obtain ⟨-, -, hplan⟩ := explain_predicts_run .error .uniform {} overlapping _ () finished
  obtain ⟨e, he, -, -, -, hcalls, -, -, -, -, -, -, hshared, -⟩ := hplan _ explained
  cases read.symm.trans he
  exact ⟨read, finished _ read, _, explained, by decide, hshared, hcalls⟩

end AccountGroups
