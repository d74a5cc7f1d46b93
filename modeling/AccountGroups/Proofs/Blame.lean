import AccountGroups.Proofs.InTurn
import AccountGroups.Proofs.Throttling
import Mathlib.Data.List.Find

/-!
# Runs in turn under a window

When the tasks of a run take turns, the requests for ids come in the order in which their keys stand
in the expression, and each is answered at its place: before the window runs out by a look at the
table, and later by a refusal. So an account that is missing is blamed before the window is.
-/

namespace AccountGroups

/-- To leave out some of the keys and to leave out all but the first of each key commute. -/
theorem filter_firsts {p : Source → Bool} {ss : List Source}
    (h : ∀ s ∈ ss, ∀ t ∈ ss, s.key = t.key → p s = p t) :
    (firsts ss).filter p = firsts (ss.filter p) := by
  induction ss using List.reverseRecOn with
  | nil => rfl
  | append_singleton ss s ih =>
    have hbefore := ih fun t ht u hu =>
      h t (List.mem_append_left _ ht) u (List.mem_append_left _ hu)
    have hlast : ∀ t ∈ ss, s.key = t.key → p s = p t := fun t ht =>
      h s (List.mem_append_right _ List.mem_cons_self) t (List.mem_append_left _ ht)
    have hkey : p s = true →
        (s.key ∈ (firsts (ss.filter p)).map Source.key ↔ s.key ∈ (firsts ss).map Source.key) := by
      intro hs
      rw [mem_keys_firsts, mem_keys_firsts, List.mem_map, List.mem_map]
      refine exists_congr fun t => and_congr_left fun hk => ?_
      rw [List.mem_filter]
      exact and_iff_left_of_imp fun ht => (hlast t ht hk.symm).symm.trans hs
    rw [firsts_concat, List.filter_append]
    cases hs : p s with
    | false =>
      have hnone : [s].filter p = [] := List.filter_eq_nil_iff.2 (by simp [hs])
      rw [hnone, List.append_nil, ← hbefore]
      split
      · rfl
      · rw [List.filter_append, hnone, List.append_nil]
    | true =>
      have hsome : [s].filter p = [s] := List.filter_eq_self.2 (by simp [hs])
      rw [hsome, firsts_concat, if_congr (hkey hs) rfl rfl, ← hbefore]
      split
      · rfl
      · rw [List.filter_append, hsome]

/-- The sources of the requests, one for each key, in the order of first places. -/
def Expr.asked (e : Expr) : List Source := e.firsts.filter Source.counted

theorem Expr.Canonical.keys_asked {e : Expr} (canonical : e.Canonical) :
    e.asked.map Source.key = ((e.sources.filter Source.counted).map Source.key).eraseDups := by
  rw [← keys_firsts, asked, Expr.firsts, filter_firsts]
  intro s hs t ht hk
  rw [canonical.eq_of_key hs ht hk]

theorem Expr.Canonical.length_asked {e : Expr} (canonical : e.Canonical) :
    e.asked.length = e.requestedKeys.size := by
  rw [← canonical.countP_counted, List.countP_eq_length_filter, asked]

namespace Snapshot

open Loading

variable {g : Snapshot} {w : RateLimit}

/-- Each request is made when all before it have been counted, and nothing else has. -/
theorem filter_counted_fetchAll (g : Snapshot) (order : List Source) :
    (client.fetchAll g order).1.filter (fun p => p.1.counted) =
      (order.filter Source.counted).mapIdx fun j s => (s, (client.fetch s (g.after j)).1) := by
  induction order using List.reverseRecOn with
  | nil => rfl
  | append_singleton order s ih =>
    rw [Client.fetchAll_concat, fetchAll_snd, List.filter_append, List.filter_append, ih,
      List.countP_eq_length_filter]
    have hfiltered (o : FetchOutcome) : [(s, o)].filter (fun p => p.1.counted) =
        bif s.counted then [(s, o)] else [] := List.filter_singleton
    rw [hfiltered, List.filter_singleton]
    cases s.counted with
    | true => exact (List.mapIdx_concat ..).symm
    | false => simp only [cond_false, List.append_nil]

/-- A request is answered at its place: by a look at the table, or by a refusal when the requests
before it have used up the window. -/
theorem fetch_after (window : g.rateLimit = some w) {s : Source}
    {table : Snapshot → KeyMap (List AccountId)} {name : String}
    (hs : s.entry? = some (table, name)) {j : Nat}
    (bound : g.requests.toNat + j < UInt32.size) :
    (client.fetch s (g.after j)).1 = if w.remaining.toNat ≤ g.requests.toNat + j
      then .error (.rateLimited w.limit 0 w.resetAt) else lookup (table g) name := by
  have hfetch : (client.fetch s (g.after j)).1 = (request table name (g.after j)).1 := by
    cases s <;> cases hs <;> rfl
  have htable : table (g.after j) = table g := by
    cases s <;> cases hs <;> rfl
  rw [hfetch, request, refusal?_after window, Nat.mod_eq_of_lt bound, htable]
  by_cases hfull : w.remaining.toNat ≤ g.requests.toNat + j
  · rw [if_pos hfull, if_pos hfull]
  · rw [if_neg hfull, if_neg hfull]

/-- What a request can give at its place. -/
theorem fetch_after_cases (window : g.rateLimit = some w) {s : Source} (hs : s.counted = true)
    {j : Nat} (bound : g.requests.toNat + j < UInt32.size) :
    (w.remaining.toNat ≤ g.requests.toNat + j ∧
      (client.fetch s (g.after j)).1 = .error (.rateLimited w.limit 0 w.resetAt)) ∨
    (g.requests.toNat + j < w.remaining.toNat ∧ g.Keeps s ∧
      ∃ ids, (client.fetch s (g.after j)).1 = .ok ids) ∨
    (g.requests.toNat + j < w.remaining.toNat ∧ ¬ g.Keeps s ∧
      ∃ table name, s.entry? = some (table, name) ∧
        (client.fetch s (g.after j)).1 = .error (.notFound name)) := by
  obtain ⟨⟨table, name⟩, hentry⟩ := Option.isSome_iff_exists.1 hs
  have hkeeps : g.Keeps s ↔ Has (table g) name := by
    simp only [Keeps, hentry]
  rw [fetch_after window hentry bound, hkeeps]
  by_cases hfull : w.remaining.toNat ≤ g.requests.toNat + j
  · exact .inl ⟨hfull, if_pos hfull⟩
  · rw [if_neg hfull]
    have hlt := Nat.lt_of_not_le hfull
    rcases lookup_cases (table g) name with ⟨hhas, hok⟩ | ⟨hnot, hmissing⟩
    · exact .inr (.inl ⟨hlt, hhas, hok⟩)
    · exact .inr (.inr ⟨hlt, hnot, table, name, hentry, hmissing⟩)

/-- A request is refused when it comes too late, and is else served when there is an entry. -/
theorem outcome_after (window : g.rateLimit = some w) {s : Source} (hs : s.counted = true)
    {j : Nat} (bound : g.requests.toNat + j < UInt32.size) :
    (isRefusal (client.fetch s (g.after j)).1 = true ↔
      w.remaining.toNat ≤ g.requests.toNat + j) ∧
    (w.remaining.toNat ≤ g.requests.toNat + j →
      (client.fetch s (g.after j)).1 = .error (.rateLimited w.limit 0 w.resetAt)) ∧
    ((∃ ids, (client.fetch s (g.after j)).1 = .ok ids) ↔
      g.requests.toNat + j < w.remaining.toNat ∧ g.Keeps s) := by
  rcases fetch_after_cases window hs bound with ⟨hle, hout⟩ | ⟨hlt, hkeeps, ids, hout⟩ |
    ⟨hlt, hnot, table, name, -, hout⟩
  · simp [hout, isRefusal, hle]
  · simp [hout, isRefusal, hlt, hkeeps]
  · simp [hout, isRefusal, hlt, hnot]

/-- Of the fetches that fail, the first one is that of a request, as looking up handles never
fails. -/
theorem find?_failed_fetchAll {order : List Source} {j : Nat} {s : Source}
    (hj : (order.filter Source.counted)[j]? = some s)
    (hfailed : failed (s, (client.fetch s (g.after j)).1) = true)
    (hbefore : ∀ i t, i < j → (order.filter Source.counted)[i]? = some t →
      failed (t, (client.fetch t (g.after i)).1) = false) :
    (client.fetchAll g order).1.find? failed = some (s, (client.fetch s (g.after j)).1) := by
  have hcounted : ∀ p ∈ (client.fetchAll g order).1,
      failed p = decide (p.1.counted = true ∧ failed p = true) := by
    intro p hp
    cases hc : p.1.counted with
    | true => simp
    | false => simp [failed_eq_false_iff.2 ((mem_fetchAll hp).2 hc)]
  obtain ⟨hlt, rfl⟩ := List.getElem?_eq_some_iff.1 hj
  rw [List.find?_congr hcounted, ← List.find?_filter, filter_counted_fetchAll,
    List.find?_eq_some_iff_getElem]
  refine ⟨hfailed, j, by rwa [List.length_mapIdx], List.getElem_mapIdx, fun i hi => ?_⟩
  rw [List.getElem_mapIdx, hbefore i _ hi (List.getElem?_eq_getElem (hi.trans hlt))]
  rfl

section Asked

variable {e : Expr} {j : Nat} {s : Source} (hj : e.asked[j]? = some s)
include hj

theorem counted_of_asked : s.counted = true :=
  (List.mem_filter.1 (List.mem_of_getElem? hj)).2

theorem mem_fetchAll_of_asked (g : Snapshot) :
    (s, (client.fetch s (g.after j)).1) ∈ (client.fetchAll g e.firsts).1 := by
  obtain ⟨hlt, rfl⟩ := List.getElem?_eq_some_iff.1 hj
  have hmem : (e.asked[j], (client.fetch e.asked[j] (g.after j)).1) ∈
      e.asked.mapIdx fun i t => (t, (client.fetch t (g.after i)).1) :=
    List.mem_mapIdx.2 ⟨j, hlt, rfl⟩
  have hfiltered := filter_counted_fetchAll g e.firsts
  exact List.mem_of_mem_filter (hfiltered ▸ hmem)

end Asked

/-- Each entry is there when those are that are looked up. -/
theorem forall_keeps_iff {e : Expr} (canonical : e.Canonical) :
    (∀ s ∈ e.sources, g.Keeps s) ↔ ∀ s ∈ e.asked, g.Keeps s := by
  constructor
  · intro hall s hs
    exact hall s (canonical.mem_firsts.1 (List.mem_of_mem_filter hs))
  · intro hall s hs
    cases hc : s.counted with
    | false => exact keeps_of_not_counted hc
    | true => exact hall s (List.mem_filter.2 ⟨canonical.mem_firsts.2 hs, hc⟩)

theorem refusals_eq_zero_iff_forall (window : g.rateLimit = some w) {n : Nat} :
    g.refusals n = 0 ↔ ∀ j, j < n → g.requests.toNat + j < w.remaining.toNat := by
  rw [refusals, window]
  dsimp only
  constructor
  · intro h j hj
    omega
  · intro h
    rcases Nat.eq_zero_or_pos n with rfl | hpos
    · exact Nat.zero_sub _
    · have hlast := h (n - 1) (by omega)
      omega

/-- Under a window that runs out, a run in turn makes all its requests. The request at place `j` is
refused when it and the `j` before it, with those made earlier, are more than the window has left.
The run is blamed on the first missing entry that was looked up, else on the first refusal. -/
theorem load_blames (files : Files) (source : String) (e : Expr) (g : Snapshot) (w : RateLimit)
    (workers : Workers) (schedule : Schedule) (read : Expr.read files source = .ok e)
    (window : g.rateLimit = some w) (inTurn : InTurn (schedule e))
    (finished : ((start e g).moves client (schedule e)).Finished)
    (bound : g.requests.toNat + e.requestedKeys.size < UInt32.size) :
    let run := load client workers schedule e g
    let tasks := ((start e g).moves client (schedule e)).registry.tasks
    let m := g.requests.toNat
    let r := w.remaining.toNat
    let refusal : GraphError := .rateLimited w.limit 0 w.resetAt
    e.asked.map Source.key = ((e.sources.filter Source.counted).map Source.key).eraseDups ∧
    e.asked.length = e.requestedKeys.size ∧
    run.client = { g with requests := g.requests + .ofNat e.asked.length } ∧
    run.client.requests.toNat = m + e.asked.length ∧
    tasks.map Task.key = (e.sources.map Source.key).eraseDups ∧
    (∀ t ∈ tasks, t.outcome.isSome ∧
      (t.source.counted = false → ∃ ids, t.outcome = some (.ok ids))) ∧
    (∀ j s, e.asked[j]? = some s → ∃ outcome, ⟨s.key, s, some outcome⟩ ∈ tasks ∧
      (isRefusal outcome = true ↔ r ≤ m + j) ∧
      (r ≤ m + j → outcome = .error refusal) ∧
      ((∃ ids, outcome = .ok ids) ↔ m + j < r ∧ g.Keeps s)) ∧
    (∀ j s, e.asked[j]? = some s → m + j < r → ¬ g.Keeps s →
      (∀ i t, i < j → e.asked[i]? = some t → g.Keeps t) →
      ∃ table name, s.entry? = some (table, name) ∧
        run.result = .error (.fetch s.key (.notFound name))) ∧
    ((∀ j s, e.asked[j]? = some s → m + j < r → g.Keeps s) →
      ∀ j s, e.asked[j]? = some s → r ≤ m + j → (∀ i, i < j → m + i < r) →
        run.result = .error (.fetch s.key refusal)) ∧
    ((∃ fetched, run.result = .ok fetched) ↔
      ∀ j s, e.asked[j]? = some s → m + j < r ∧ g.Keeps s) := by
  intro run tasks m r refusal
  have canonical := Expr.canonical_of_read read
  have hlength := canonical.length_asked
  have h := finished.describes_inTurn inTurn
  obtain ⟨hclient, -, hload⟩ := load_of_canonical canonical workers finished bound
  rw [← hlength] at hclient hload bound
  have hbound {j : Nat} {s : Source} (hj : e.asked[j]? = some s) : m + j < UInt32.size :=
    (Nat.add_lt_add_left (List.getElem?_eq_some_iff.1 hj).1 m).trans bound
  have hcases {j : Nat} {s : Source} (hj : e.asked[j]? = some s) :=
    fetch_after_cases window (counted_of_asked hj) (hbound hj)
  have hresult : ∀ {j s error}, e.asked[j]? = some s →
      (client.fetch s (g.after j)).1 = .error error →
      (∀ i t, i < j → e.asked[i]? = some t → m + i < r ∧ g.Keeps t) →
      run.result = .error (.fetch s.key error) := by
    intro j s error hj herror hbefore
    refine (h.results_inTurn _).2 ⟨s, error, ?_, rfl⟩
    rw [← herror]
    refine find?_failed_fetchAll hj (failed_iff.2 ⟨error, herror⟩) fun i t hi ht => ?_
    obtain ⟨hlt, hkeeps⟩ := hbefore i t hi ht
    exact failed_eq_false_iff.2
      ((outcome_after window (counted_of_asked ht) (hbound ht)).2.2.2 ⟨hlt, hkeeps⟩)
  refine ⟨canonical.keys_asked, hlength, hclient, ?_, h.keys.trans (keys_firsts e.sources),
    fun t ht => ⟨finished.ran t ht, outcome_of_not_counted finished ht⟩, fun j s hj => ?_,
    fun j s hj hlt hnot hbefore => ?_, fun hkeeps j s hj hle hbefore => ?_, hload.trans ?_⟩
  · show run.client.requests.toNat = _
    rw [hclient, toNat_requests_after bound]
  · refine ⟨_, ?_, outcome_after window (counted_of_asked hj) (hbound hj)⟩
    rw [show tasks = _ from h.tasks_inTurn]
    exact List.mem_map_of_mem (mem_fetchAll_of_asked hj g)
  · rcases hcases hj with ⟨hle, -⟩ | ⟨-, hkeeps, -⟩ | ⟨-, -, table, name, hentry, hmissing⟩
    · exact absurd hle (Nat.not_le_of_lt hlt)
    · exact absurd hkeeps hnot
    · exact ⟨table, name, hentry, hresult hj hmissing fun i t hi ht =>
        ⟨by omega, hbefore i t hi ht⟩⟩
  · rcases hcases hj with ⟨-, hrefused⟩ | ⟨hlt, -⟩ | ⟨hlt, -⟩
    · exact hresult hj hrefused fun i t hi ht => ⟨hbefore i hi, hkeeps i t ht (hbefore i hi)⟩
    · exact absurd hle (Nat.not_le_of_lt hlt)
    · exact absurd hle (Nat.not_le_of_lt hlt)
  · rw [refusals_eq_zero_iff_forall window, forall_keeps_iff canonical]
    constructor
    · rintro ⟨hwithin, hkeeps⟩ j s hj
      exact ⟨hwithin j (List.getElem?_eq_some_iff.1 hj).1, hkeeps s (List.mem_of_getElem? hj)⟩
    · intro hall
      refine ⟨fun j hj => (hall j _ (List.getElem?_eq_getElem hj)).1, fun s hs => ?_⟩
      obtain ⟨j, hj⟩ := List.getElem?_of_mem hs
      exact (hall j s hj).2

/-- `a.followers & ({c} | b.following) & (a.followers | d.followers)` -/
def requesting : Expr :=
  .inter (.inter (.source (.followers "a"))
      (.union (.source (.handles (.ofHandles ["c"]))) (.source (.following "b"))))
    (.union (.source (.followers "a")) (.source (.followers "d")))

/-- Each task runs before the next one is made. -/
def stepwise : Schedule := fun _ =>
  [.register, .run 0, .register, .run 1, .register, .run 2, .register, .register, .run 3]

/-- One request has been made, and two more are allowed. -/
def twoLeft : Snapshot :=
  { (empty.withFollowers "a" [1, 2]).withRateLimit ⟨5, 3, ⟨1970, 1, 1, 0, 0⟩⟩ with requests := 1 }

/-- The third request comes too late, but the second one finds no entry and is blamed. When there
is an entry for it, the third one is blamed. -/
theorem load_blames_requesting :
    let stored := twoLeft.withFollowing "b" [2]
    Expr.read .error "a.followers & ({c} | b.following) & (A.followers | d.followers)" =
        .ok requesting ∧ InTurn (stepwise requesting) ∧
      twoLeft.rateLimit = some ⟨5, 3, ⟨1970, 1, 1, 0, 0⟩⟩ ∧
      ((start requesting twoLeft).moves client (stepwise requesting)).Finished ∧
      ((start requesting stored).moves client (stepwise requesting)).Finished ∧
      twoLeft.requests.toNat + requesting.requestedKeys.size < UInt32.size ∧
      requesting.asked = [.followers "a", .following "b", .followers "d"] ∧
      (load client {} stepwise requesting twoLeft).client.requests.toNat = 4 ∧
      (load client {} stepwise requesting twoLeft).result =
        .error (.fetch "b.following" (.notFound "b")) ∧
      (load client {} stepwise requesting stored).result =
        .error (.fetch "d.followers" (.rateLimited 5 0 ⟨1970, 1, 1, 0, 0⟩)) := by
  intro stored
  have read : Expr.read .error
      "a.followers & ({c} | b.following) & (A.followers | d.followers)" =
        .ok requesting := by decide
  have inTurn : InTurn (stepwise requesting) := by decide
  have finished : ((start requesting twoLeft).moves client (stepwise requesting)).Finished :=
    ⟨by decide, by decide⟩
  have finished' : ((start requesting stored).moves client (stepwise requesting)).Finished :=
    ⟨by decide, by decide⟩
  have bound : twoLeft.requests.toNat + requesting.requestedKeys.size < UInt32.size := by
    decide
  have asked : requesting.asked = [.followers "a", .following "b", .followers "d"] := by
    decide
  obtain ⟨-, -, -, hrequests, -, -, -, hmissing, -⟩ := load_blames .error _ requesting twoLeft
    ⟨5, 3, ⟨1970, 1, 1, 0, 0⟩⟩ {} stepwise read rfl inTurn finished bound
  obtain ⟨-, -, -, -, -, -, -, -, hrefused, -⟩ := load_blames .error _ requesting stored
    ⟨5, 3, ⟨1970, 1, 1, 0, 0⟩⟩ {} stepwise read rfl inTurn finished' bound
  have hfirst : ∀ g : Snapshot, g.followers = twoLeft.followers → g.Keeps (.followers "a") :=
    fun g hg => ⟨"a", hg ▸ List.mem_cons_self, .inl rfl⟩
  refine ⟨read, inTurn, rfl, finished, finished', bound, asked,
    hrequests.trans (by rw [asked]; rfl), ?_, ?_⟩
  · obtain ⟨table, name, hentry, hresult⟩ := hmissing 1 (.following "b") (by rw [asked]; rfl)
      (by decide) (fun ⟨_, hkey, _⟩ => nomatch hkey) fun i t hi ht => by
        obtain rfl : i = 0 := by omega
        rw [asked] at ht
        obtain rfl := Option.some.inj ht
        exact hfirst _ rfl
    cases hentry
    exact hresult
  · refine hrefused (fun j t ht hj => ?_) 2 (.followers "d") (by rw [asked]; rfl) (by decide) ?_
    · have hplace : 1 + j < 3 := hj
      rw [asked] at ht
      obtain rfl | rfl : j = 0 ∨ j = 1 := by omega
      · obtain rfl := Option.some.inj ht
        exact hfirst _ rfl
      · obtain rfl := Option.some.inj ht
        exact ⟨"b", List.mem_cons_self, .inl rfl⟩
    · intro i hi
      show 1 + i < 3
      omega

end Snapshot

end AccountGroups
