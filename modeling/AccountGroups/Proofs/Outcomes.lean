import AccountGroups.Proofs.Interleaving

/-!
# What a finished run gives

When all tasks have run, the outcomes of the fetches decide the result: all lists under their keys,
or the failure whose key stands leftmost in the expression.
-/

namespace AccountGroups

namespace Loading

variable {σ : Type} {c : Client σ} {client : σ} {seen ran : List Source} {l : Loading σ}

/-- The outcomes of fetches under the keys of their sources. -/
def filed (made : List (Source × FetchOutcome)) : List (String × FetchOutcome) :=
  made.map fun p => (p.1.key, p.2)

theorem Describes.mem_filed (h : l.Describes c client seen ran) {key : String} {o : FetchOutcome} :
    (key, o) ∈ filed (c.fetchAll client ran).1 ↔
      ∃ t ∈ l.registry.tasks, t.key = key ∧ t.outcome = some o := by
  constructor
  · intro hf
    obtain ⟨⟨s, o'⟩, hs, he⟩ := List.mem_map.1 hf
    cases he
    have hran : s ∈ ran := by
      rw [← Client.map_fst_fetchAll c client ran]
      exact List.mem_map_of_mem hs
    refine ⟨taskAfter (c.fetchAll client ran).1 s, ?_, rfl, (Client.lookup_fetchAll h.nodup).2 hs⟩
    rw [h.tasks]
    exact List.mem_map_of_mem (h.subset hran)
  · rintro ⟨t, ht, rfl, ho⟩
    rw [h.tasks] at ht
    obtain ⟨s, -, rfl⟩ := List.mem_map.1 ht
    exact List.mem_map.2 ⟨(s, o), (Client.lookup_fetchAll h.nodup).1 ho, rfl⟩

/-- The key that stands leftmost in the sources among the failed ones, and its error. -/
def LeftmostFailure (made : List (Source × FetchOutcome)) (ss : List Source) (key : String)
    (error : GraphError) : Prop :=
  ∃ before s after, ss = before ++ s :: after ∧ s.key = key ∧
    (∀ t ∈ before, ∃ ids, (t.key, .ok ids) ∈ filed made) ∧ (key, .error error) ∈ filed made

/-- Where every key has an outcome, all have succeeded or one failure is leftmost. -/
theorem all_ok_or_leftmostFailure {made : List (Source × FetchOutcome)} {ss : List Source}
    (h : ∀ s ∈ ss, ∃ o, (s.key, o) ∈ filed made) :
    (∀ s ∈ ss, ∃ ids, (s.key, .ok ids) ∈ filed made) ∨
      ∃ key error, LeftmostFailure made ss key error := by
  induction ss using List.reverseRecOn with
  | nil => exact .inl fun s hs => by cases hs
  | append_singleton ss s ih =>
    rcases ih fun t ht => h t (List.mem_append_left _ ht) with hall | ⟨key, error, failed⟩
    · obtain ⟨o, ho⟩ := h s (by simp)
      cases o with
      | ok ids =>
        refine .inl fun t ht => ?_
        rcases List.mem_append.1 ht with ht | ht
        · exact hall t ht
        · exact ⟨ids, List.mem_singleton.1 ht ▸ ho⟩
      | error error => exact .inr ⟨s.key, error, ss, s, [], rfl, rfl, hall, ho⟩
    · obtain ⟨before, t, after, rfl, hkey, hok, herror⟩ := failed
      exact .inr ⟨key, error, before, t, after ++ [s], by simp, hkey, hok, herror⟩

section Results

variable (h : l.Describes c client seen ran)

include h

theorem Describes.results_of_leftmost {key : String} {error : GraphError}
    (failed : LeftmostFailure (c.fetchAll client ran).1 seen key error) :
    l.registry.results = .error (.fetch key error) := by
  obtain ⟨before, s, after, rfl, rfl, hok, hs⟩ := failed
  refine Registry.results_error h.keys ?_ (h.mem_filed.1 hs)
  intro t ht
  obtain ⟨ids, hids⟩ := hok t ht
  obtain ⟨u, hu, huk, ho⟩ := h.mem_filed.1 hids
  exact ⟨u, hu, huk, ids, ho⟩

theorem Describes.mem_keys {key : String} :
    key ∈ l.registry.tasks.map Task.key ↔ key ∈ seen.map Source.key := by
  rw [h.keys, mem_keys_firsts]

variable (done : ∀ t ∈ l.registry.tasks, t.outcome.isSome)

include done

theorem Describes.exists_filed {key : String} (hk : key ∈ seen.map Source.key) :
    ∃ o, (key, o) ∈ filed (c.fetchAll client ran).1 := by
  obtain ⟨t, ht, hts⟩ := List.mem_map.1 (h.mem_keys.2 hk)
  obtain ⟨o, ho⟩ := Option.isSome_iff_exists.1 (done t ht)
  exact ⟨o, h.mem_filed.2 ⟨t, ht, hts, ho⟩⟩

/-- When all tasks have run, either all have succeeded and each list is found under its key, or one
failure is leftmost. -/
theorem Describes.results :
    ((∀ p ∈ filed (c.fetchAll client ran).1, ∃ ids, p.2 = .ok ids) ∧
      ∃ fetched, l.registry.results = .ok fetched ∧ ∀ key ids,
        fetched.get? key = some ids ↔ (key, .ok ids) ∈ filed (c.fetchAll client ran).1) ∨
    ∃ key error, LeftmostFailure (c.fetchAll client ran).1 seen key error := by
  refine (all_ok_or_leftmostFailure fun s hs =>
    h.exists_filed done (List.mem_map_of_mem hs)).imp_left fun hall => ?_
  have nodup : (l.registry.tasks.map Task.key).Nodup := h.keys ▸ nodup_keys_firsts seen
  have hok : ∀ t ∈ l.registry.tasks, ∃ ids, t.outcome = some (.ok ids) := by
    intro t ht
    obtain ⟨s, hs, hst⟩ := List.mem_map.1 (h.mem_keys.1 (List.mem_map_of_mem ht))
    obtain ⟨ids, hids⟩ := hall s hs
    obtain ⟨u, hu, hus, ho⟩ := h.mem_filed.1 hids
    obtain rfl : t = u := List.inj_on_of_nodup_map nodup ht hu (hst.symm.trans hus.symm)
    exact ⟨ids, ho⟩
  obtain ⟨fetched, hfetched, hget⟩ := Registry.results_ok nodup hok
  refine ⟨?_, fetched, hfetched, fun key ids => (hget key ids).trans h.mem_filed.symm⟩
  rintro ⟨key, o⟩ hp
  obtain ⟨t, ht, -, ho⟩ := h.mem_filed.1 hp
  obtain ⟨ids, hids⟩ := hok t ht
  exact ⟨ids, Option.some.inj (ho.symm.trans hids)⟩

theorem Describes.exists_results_iff :
    (∃ fetched, l.registry.results = .ok fetched) ↔
      ∀ p ∈ filed (c.fetchAll client ran).1, ∃ ids, p.2 = .ok ids := by
  constructor
  · rintro ⟨fetched, hfetched⟩
    rcases h.results done with ⟨hall, -⟩ | ⟨key, error, failed⟩
    · exact hall
    · rw [h.results_of_leftmost failed] at hfetched
      cases hfetched
  · intro hall
    rcases h.results done with ⟨-, fetched, hfetched, -⟩ | ⟨key, error, -, s, -, -, -, -, herror⟩
    · exact ⟨fetched, hfetched⟩
    · obtain ⟨ids, hids⟩ := hall _ herror
      cases hids

theorem Describes.get?_of_results {fetched : Fetched}
    (hfetched : l.registry.results = .ok fetched) (key : String) (ids : List AccountId) :
    fetched.get? key = some ids ↔ (key, .ok ids) ∈ filed (c.fetchAll client ran).1 := by
  rcases h.results done with ⟨-, found, hfound, hget⟩ | ⟨key, error, failed⟩
  · cases hfetched.symm.trans hfound
    exact hget key ids
  · rw [h.results_of_leftmost failed] at hfetched
    cases hfetched

theorem Describes.results_eq_error_iff (failure : ExecutionError) :
    l.registry.results = .error failure ↔
      ∃ key error, LeftmostFailure (c.fetchAll client ran).1 seen key error ∧
        failure = .fetch key error := by
  constructor
  · intro hfailure
    rcases h.results done with ⟨-, fetched, hfetched, -⟩ | ⟨key, error, failed⟩
    · rw [hfetched] at hfailure
      cases hfailure
    · rw [h.results_of_leftmost failed] at hfailure
      exact ⟨key, error, failed, (Except.error.inj hfailure).symm⟩
  · rintro ⟨key, error, failed, rfl⟩
    exact h.results_of_leftmost failed

theorem Describes.mem_keys_of_results {fetched : Fetched}
    (hfetched : l.registry.results = .ok fetched) (key : String) :
    key ∈ fetched.keys ↔ key ∈ seen.map Source.key := by
  rw [KeyMap.mem_keys]
  simp only [h.get?_of_results done hfetched]
  constructor
  · rintro ⟨ids, hids⟩
    obtain ⟨t, ht, rfl, -⟩ := h.mem_filed.1 hids
    exact h.mem_keys.1 (List.mem_map_of_mem ht)
  · intro hk
    obtain ⟨o, ho⟩ := h.exists_filed done hk
    obtain ⟨ids, rfl⟩ := (h.exists_results_iff done).1 ⟨fetched, hfetched⟩ _ ho
    exact ⟨ids, ho⟩

end Results

/-- With fixed answers the order of the runs leaves no trace in the tasks. -/
theorem Finished.tasks_of_steady {e : Expr} {ms : List Move} (steady : c.Steady)
    (finished : ((start e client).moves c ms).Finished) (any : σ) :
    ((start e client).moves c ms).registry.tasks =
      e.firsts.map fun s => ⟨s.key, s, some (c.fetch s any).1⟩ := by
  obtain ⟨order, hperm, h, -⟩ := finished.describes
  rw [h.tasks]
  refine List.map_congr_left fun s hs => ?_
  have hmade : (s, (c.fetch s any).1) ∈ (c.fetchAll client order).1 := by
    rw [steady.fetchAll client any]
    exact List.mem_map_of_mem (hperm.mem_iff.2 hs)
  rw [taskAfter, (Client.lookup_fetchAll h.nodup).2 hmade]

end Loading

open Loading

/-- Every run can be finished. A finished one has fetched the leftmost source of each key once, in
some order, and what it gives is what these fetches gave. With fixed answers the order makes no
difference. -/
theorem load_of_finished {σ : Type} (c : Client σ) (workers : Workers) (schedule : Schedule)
    (e : Expr) (client : σ) (finished : ((start e client).moves c (schedule e)).Finished) :
    (∀ ms, ∃ more, ((start e client).moves c (ms ++ more)).Finished) ∧
    ∃ order made last, c.fetchAll client order = (made, last) ∧ order.Perm e.firsts ∧
      (e.firsts.map Source.key).Nodup ∧
      (∀ key, (e.firsts.find? fun s => s.key == key) = e.sources.find? fun s => s.key == key) ∧
      ((start e client).moves c (schedule e)).registry.tasks = e.firsts.map (taskAfter made) ∧
      (load c workers schedule e client).client = last ∧
      (load c.recorded workers schedule e (client, [])).client =
        (last, order.filterMap Source.request?) ∧
      (load c workers schedule e client).log.tail = made.flatMap events ∧
      ((∃ fetched, (load c workers schedule e client).result = .ok fetched) ↔
        ∀ p ∈ made, ∃ ids, p.2 = .ok ids) ∧
      (∀ fetched, (load c workers schedule e client).result = .ok fetched →
        (∀ key, key ∈ fetched.keys ↔ key ∈ e.sources.map Source.key) ∧
        ∀ key ids, fetched.get? key = some ids ↔ (key, .ok ids) ∈ filed made) ∧
      (∀ failure, (load c workers schedule e client).result = .error failure ↔
        ∃ key error, LeftmostFailure made e.sources key error ∧ failure = .fetch key error) ∧
      (c.Steady → ∀ (others : Workers) (order' : Schedule) (client' : σ),
        ((start e client').moves c (order' e)).Finished →
          (load c others order' e client').result = (load c workers schedule e client).result ∧
          (load c.recorded others order' e (client', [])).client.2.Perm
            (order.filterMap Source.request?)) := by
  obtain ⟨order, hperm, h, hcalls⟩ := finished.describes
  refine ⟨exists_finished c e client, order, _, _, rfl, hperm, nodup_keys_firsts _, find?_firsts _,
    h.tasks, h.state, hcalls, h.log,
    (h.exists_results_iff finished.ran).trans List.forall_mem_map, ?_,
    h.results_eq_error_iff finished.ran, ?_⟩
  · intro fetched hfetched
    exact ⟨h.mem_keys_of_results finished.ran hfetched, h.get?_of_results finished.ran hfetched⟩
  · intro steady others order' client' finished'
    obtain ⟨ran, hran, h', hcalls'⟩ := finished'.describes
    constructor
    · have htasks := (finished'.tasks_of_steady steady client).trans
        (finished.tasks_of_steady steady client).symm
      simp only [load, Registry.results, htasks]
    · have hmade : (load c.recorded others order' e (client', [])).client.2 =
          ran.filterMap Source.request? := congrArg Prod.snd hcalls'
      rw [hmade]
      exact (hran.trans hperm.symm).filterMap _

/-- Every call fails, and the error tells how many calls there were before. -/
def Client.failing : Client UInt64 where
  followerIds _ n := (.error (.service (Text.numeral n.toNat)), n + 1)
  friendIds _ n := (.error (.service (Text.numeral n.toNat)), n + 1)
  listMembers _ _ n := (.error (.service (Text.numeral n.toNat)), n + 1)
  usersByHandle _ n := (.error (.service (Text.numeral n.toNat)), n + 1)
  usersById _ n := (.error (.service (Text.numeral n.toNat)), n + 1)

/-- `a.followers & (b.following | a.followers)` -/
def Expr.repeating : Expr :=
  .inter (.source (.followers "a"))
    (.union (.source (.following "b")) (.source (.followers "a")))

/-- The second task runs before the first one, and both before the last source is registered. -/
def overlapping : Schedule := fun _ => [.register, .register, .run 1, .run 0, .register]

theorem load_overlapping :
    ((start .repeating 0).moves .failing (overlapping .repeating)).Finished ∧
      ∃ order made last, Client.failing.fetchAll 0 order = (made, last) ∧
        order.Perm Expr.repeating.firsts ∧
        (load Client.failing.recorded {} overlapping .repeating (0, [])).client =
          (last, order.filterMap Source.request?) ∧
        ∀ failure, (load .failing {} overlapping .repeating 0).result = .error failure ↔
          ∃ key error, LeftmostFailure made Expr.repeating.sources key error ∧
            failure = .fetch key error := by
  have finished : ((start .repeating 0).moves .failing (overlapping .repeating)).Finished :=
    ⟨rfl, by decide⟩
  obtain ⟨-, order, made, last, hmade, hperm, -, -, -, -, hcalls, -, -, -, hfailure, -⟩ :=
    load_of_finished .failing {} overlapping .repeating 0 finished
  exact ⟨finished, order, made, last, hmade, hperm, hcalls, hfailure⟩

end AccountGroups
