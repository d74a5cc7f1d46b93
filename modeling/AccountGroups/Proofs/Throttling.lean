import AccountGroups.Proofs.Planning
import AccountGroups.Snapshot

/-!
# Runs under a window

A snapshot counts the requests for ids and refuses those beyond its window. Which of them come too
late depends on the order in which the tasks run. How many there are, how many are refused and
whether the run succeeds does not.
-/

namespace AccountGroups

/-- The table of a snapshot in which a source is looked up, and its name there. -/
def Source.entry? : Source → Option ((Snapshot → KeyMap (List AccountId)) × String)
  | followers handle => some (Snapshot.followers, handle)
  | following handle => some (Snapshot.following, handle)
  | members owner list => some (Snapshot.lists, Snapshot.listName owner list)
  | handles _ => none

/-- Fetching the source is a request for ids. -/
def Source.counted (s : Source) : Bool := s.entry?.isSome

def Expr.requestedKeys (e : Expr) : Ascending String :=
  .ofList ((e.sources.filter Source.counted).map Source.key)

def isRefusal : FetchOutcome → Bool
  | .error (.rateLimited ..) => true
  | _ => false

namespace Snapshot

variable {g : Snapshot}

/-- The table has the name, exactly or up to the case of ASCII letters. -/
def Has (table : KeyMap (List AccountId)) (name : String) : Prop :=
  ∃ key ∈ table.keys, key = name ∨ Text.sameLetters key name = true

/-- A source that is looked up has an entry. -/
def Keeps (g : Snapshot) (s : Source) : Prop :=
  match s.entry? with
  | some (table, name) => Has (table g) name
  | none => True

/-- The snapshot when more requests have been made. -/
def after (g : Snapshot) (requests : Nat) : Snapshot :=
  { g with requests := g.requests + .ofNat requests }

@[simp] theorem after_zero : g.after 0 = g := by
  have h : g.requests + UInt32.ofNat 0 = g.requests := UInt32.add_zero _
  rw [after, h]

theorem after_after (n m : Nat) : (g.after n).after m = g.after (n + m) := by
  have h : g.requests + .ofNat n + .ofNat m = g.requests + .ofNat (n + m) := by
    rw [UInt32.ofNat_add, UInt32.add_assoc]
  simp only [after, h]

@[simp] theorem rateLimit_after (n : Nat) : (g.after n).rateLimit = g.rateLimit := rfl

theorem toNat_requests_after {n : Nat} (h : g.requests.toNat + n < UInt32.size) :
    (g.after n).requests.toNat = g.requests.toNat + n := by
  have hn : n < UInt32.size := by omega
  rw [after, UInt32.toNat_add, UInt32.toNat_ofNat_of_lt' hn, Nat.mod_eq_of_lt h]

theorem keeps_after {n : Nat} {s : Source} : (g.after n).Keeps s ↔ g.Keeps s := by
  cases s <;> rfl

theorem lookup_cases (table : KeyMap (List AccountId)) (name : String) :
    (Has table name ∧ ∃ ids, lookup table name = .ok ids) ∨
      (¬ Has table name ∧ lookup table name = .error (.notFound name)) := by
  unfold lookup
  cases hget : table.get? name with
  | some ids => exact .inl ⟨⟨name, KeyMap.mem_keys.2 ⟨ids, hget⟩, .inl rfl⟩, ids, rfl⟩
  | none =>
    cases hfind : table.entries.find? fun e => Text.sameLetters e.1 name with
    | some e =>
      have hsame := List.find?_some hfind
      have hmem : e.1 ∈ table.keys := List.mem_map_of_mem (List.mem_of_find?_eq_some hfind)
      exact .inl ⟨⟨e.1, hmem, .inr hsame⟩, e.2, rfl⟩
    | none =>
      refine .inr ⟨?_, rfl⟩
      rintro ⟨key, hkey, rfl | hsame⟩
      · obtain ⟨ids, hids⟩ := KeyMap.mem_keys.1 hkey
        rw [hget] at hids
        cases hids
      · obtain ⟨e, he, rfl⟩ := List.mem_map.1 hkey
        exact List.find?_eq_none.1 hfind e he hsame

theorem isRefusal_of_refusal? {cause : GraphError} (h : g.refusal? = some cause) :
    isRefusal (.error cause) = true := by
  unfold refusal? at h
  split at h
  · split at h
    · cases h
      rfl
    · cases h
  · cases h

/-- A request is counted. It is refused by the window alone, and is else a look at the table. -/
theorem fetch_of_counted {s : Source} (h : s.counted = true) :
    (client.fetch s g).2 = g.after 1 ∧
      isRefusal (client.fetch s g).1 = g.refusal?.isSome ∧
      ((∃ ids, (client.fetch s g).1 = .ok ids) ↔ g.refusal? = none ∧ g.Keeps s) := by
  obtain ⟨⟨table, name⟩, hs⟩ := Option.isSome_iff_exists.1 h
  have hfetch : client.fetch s g = request table name g := by
    cases s <;> cases hs <;> rfl
  have hkeeps : g.Keeps s ↔ Has (table g) name := by
    simp only [Keeps, hs]
  rw [hfetch, hkeeps]
  unfold request
  cases hr : g.refusal? with
  | some cause => exact ⟨rfl, isRefusal_of_refusal? hr, by simp⟩
  | none =>
    rcases lookup_cases (table g) name with ⟨hhas, ids, hids⟩ | ⟨hnot, hmissing⟩
    · exact ⟨rfl, by simp [hids, isRefusal], by simp [hids, hhas]⟩
    · exact ⟨rfl, by simp [hmissing, isRefusal], by simp [hmissing, hnot]⟩

/-- Looking up accounts by their handles is not counted and never refused. -/
theorem fetch_of_not_counted {s : Source} (h : s.counted = false) :
    ∃ ids, client.fetch s g = (.ok ids, g) := by
  cases s with
  | followers | following | members => cases h
  | handles set =>
    simp only [Client.fetch]
    split <;> exact ⟨_, rfl⟩

theorem keeps_of_not_counted {s : Source} (h : s.counted = false) : g.Keeps s := by
  cases s with
  | followers | following | members => cases h
  | handles set => trivial

theorem fetch_snd (s : Source) :
    (client.fetch s g).2 = g.after (if s.counted then 1 else 0) := by
  cases h : s.counted with
  | true => exact (fetch_of_counted h).1
  | false =>
    obtain ⟨ids, hids⟩ := fetch_of_not_counted (g := g) h
    rw [hids]
    exact after_zero.symm

/-- A fetch succeeds when it is not refused and there is an entry. -/
theorem fetch_eq_ok_iff (s : Source) :
    (∃ ids, (client.fetch s g).1 = .ok ids) ↔
      isRefusal (client.fetch s g).1 = false ∧ g.Keeps s := by
  cases h : s.counted with
  | true =>
    obtain ⟨-, hrefusal, hok⟩ := fetch_of_counted (g := g) h
    rw [hok, hrefusal, Option.isSome_eq_false_iff, Option.isNone_iff_eq_none]
  | false =>
    obtain ⟨ids, hids⟩ := fetch_of_not_counted (g := g) h
    rw [hids]
    exact iff_of_true ⟨ids, rfl⟩ ⟨rfl, keeps_of_not_counted h⟩

/-- How many of the next requests are refused. -/
def refusals (g : Snapshot) (requests : Nat) : Nat :=
  match g.rateLimit with
  | some window => requests - min requests (window.remaining.toNat - g.requests.toNat)
  | none => 0

theorem refusal?_isSome_iff :
    g.refusal?.isSome = true ↔ ∃ window, g.rateLimit = some window ∧
      window.remaining.toNat ≤ g.requests.toNat := by
  unfold refusal?
  cases g.rateLimit with
  | none => simp
  | some window =>
    by_cases h : window.remaining ≤ g.requests
    · simp [h, UInt32.le_iff_toNat_le.1 h]
    · simp [h, mt UInt32.le_iff_toNat_le.2 h]

/-- Whether a request is refused is told by the count of the requests before it, which has 32
bits. -/
theorem refusal?_after {w : RateLimit} (window : g.rateLimit = some w) (k : Nat) :
    (g.after k).refusal? = if w.remaining.toNat ≤ (g.requests.toNat + k) % UInt32.size
      then some (.rateLimited w.limit 0 w.resetAt) else none := by
  have hcount : (g.after k).requests.toNat = (g.requests.toNat + k) % UInt32.size := by
    rw [after, UInt32.toNat_add, UInt32.toNat_ofNat', Nat.add_mod_mod]
  have hle : w.remaining ≤ (g.after k).requests ↔
      w.remaining.toNat ≤ (g.requests.toNat + k) % UInt32.size := by
    rw [UInt32.le_iff_toNat_le, hcount]
  simp only [refusal?, rateLimit_after, window, hle]

theorem refusals_succ {n : Nat} (h : g.requests.toNat + n < UInt32.size) :
    g.refusals (n + 1) = g.refusals n + if (g.after n).refusal?.isSome then 1 else 0 := by
  have hn := toNat_requests_after h
  unfold refusals
  cases hw : g.rateLimit with
  | none =>
    have hfree : ¬ (g.after n).refusal?.isSome = true := by
      rw [refusal?_isSome_iff]
      rintro ⟨window, hwindow, -⟩
      rw [rateLimit_after, hw] at hwindow
      cases hwindow
    rw [if_neg hfree]
  | some window =>
    have hfull : (g.after n).refusal?.isSome = true ↔
        window.remaining.toNat ≤ g.requests.toNat + n := by
      rw [refusal?_isSome_iff, rateLimit_after, hw, hn]
      simp
    dsimp only
    split
    · next hf =>
      have hle := hfull.1 hf
      omega
    · next hf =>
      have hlt := mt hfull.2 hf
      omega

theorem fetchAll_snd (order : List Source) :
    (client.fetchAll g order).2 = g.after (order.countP Source.counted) := by
  induction order using List.reverseRecOn with
  | nil => exact after_zero.symm
  | append_singleton order s ih =>
    rw [Client.fetchAll_concat, ih, fetch_snd, after_after, List.countP_append,
      List.countP_singleton]

/-- In every order of the fetches the window refuses equally many. -/
theorem countP_isRefusal {order : List Source}
    (h : g.requests.toNat + order.countP Source.counted < UInt32.size) :
    ((client.fetchAll g order).1.countP fun p => isRefusal p.2) =
      g.refusals (order.countP Source.counted) := by
  induction order using List.reverseRecOn with
  | nil =>
    unfold refusals
    split
    · exact (Nat.zero_sub _).symm
    · rfl
  | append_singleton order s ih =>
    rw [List.countP_append, List.countP_singleton] at h ⊢
    have hbefore : g.requests.toNat + order.countP Source.counted < UInt32.size := by omega
    rw [Client.fetchAll_concat, List.countP_append, ih hbefore, fetchAll_snd,
      List.countP_singleton]
    cases hs : s.counted with
    | true =>
      rw [(fetch_of_counted hs).2.1]
      exact (refusals_succ hbefore).symm
    | false =>
      obtain ⟨ids, hids⟩ := fetch_of_not_counted (g := g.after (order.countP Source.counted)) hs
      rw [hids]
      rfl

theorem mem_fetchAll {order : List Source} {p : Source × FetchOutcome}
    (hp : p ∈ (client.fetchAll g order).1) :
    ((∃ ids, p.2 = .ok ids) ↔ isRefusal p.2 = false ∧ g.Keeps p.1) ∧
      (p.1.counted = false → ∃ ids, p.2 = .ok ids) := by
  induction order using List.reverseRecOn with
  | nil => cases hp
  | append_singleton order s ih =>
    rw [Client.fetchAll_concat, fetchAll_snd] at hp
    rcases List.mem_append.1 hp with hp | hp
    · exact ih hp
    · obtain rfl := List.mem_singleton.1 hp
      refine ⟨(fetch_eq_ok_iff s).trans (and_congr_right' keeps_after), fun hs => ?_⟩
      obtain ⟨ids, hids⟩ := fetch_of_not_counted (g := g.after (order.countP Source.counted)) hs
      exact ⟨ids, by rw [hids]⟩

end Snapshot

section Runs

variable {σ : Type} {c : Client σ} {client : σ}

/-- The tasks have the outcomes of the fetches. -/
theorem Loading.Describes.countP_tasks {seen ran : List Source} {l : Loading σ}
    (h : l.Describes c client seen ran) (hperm : ran.Perm (firsts seen))
    (p : FetchOutcome → Bool) :
    (l.registry.tasks.countP fun t => t.outcome.any p) =
      (c.fetchAll client ran).1.countP fun q => p q.2 := by
  let made := (c.fetchAll client ran).1
  have hran : made.map Prod.fst = ran := Client.map_fst_fetchAll c client ran
  have hlookup : ∀ q ∈ made, (made.lookup q.1).any p = p q.2 := by
    intro q hq
    rw [(Client.lookup_fetchAll h.nodup).2 hq]
    rfl
  calc (l.registry.tasks.countP fun t => t.outcome.any p)
    _ = (firsts seen).countP fun s => (made.lookup s).any p := by
      rw [h.tasks, List.countP_map]
      rfl
    _ = ran.countP fun s => (made.lookup s).any p := hperm.symm.countP_eq _
    _ = (made.map Prod.fst).countP fun s => (made.lookup s).any p := by rw [hran]
    _ = made.countP fun q => (made.lookup q.1).any p := List.countP_map
    _ = made.countP fun q => p q.2 := List.countP_congr fun q hq => by rw [hlookup q hq]

theorem Expr.execute_client (c : Client σ) (workers : Workers) (schedule : Schedule) (e : Expr)
    (client : σ) :
    (e.execute c workers schedule client).client = (load c workers schedule e client).client := by
  simp only [execute]
  split
  · rfl
  · split <;> rfl

/-- A run gives a group when the lists for it have been loaded. -/
theorem Expr.exists_execute_iff {e : Expr} (workers : Workers) {schedule : Schedule}
    (finished : ((Loading.start e client).moves c (schedule e)).Finished) :
    (∃ r, (e.execute c workers schedule client).result = .ok r) ↔
      ∃ fetched, (load c workers schedule e client).result = .ok fetched := by
  cases hload : (load c workers schedule e client).result with
  | error failure => simp [Expr.execute_of_load_error hload]
  | ok fetched =>
    refine iff_of_true ?_ ⟨fetched, rfl⟩
    rcases Expr.execute_of_finished workers finished with ⟨g, hok⟩ | ⟨key, error, herror⟩
    · exact ⟨_, hok⟩
    · simp only [execute, hload] at herror
      cases hg : e.evaluate fetched with
      | error cause => rw [hg] at herror; cases herror
      | ok g => rw [hg] at herror; cases herror

end Runs

/-- In a canonical expression there is one request for each key of a request. -/
theorem Expr.Canonical.countP_counted {e : Expr} (canonical : e.Canonical) :
    e.firsts.countP Source.counted = e.requestedKeys.size := by
  have hnodup : ((e.firsts.filter Source.counted).map Source.key).Nodup :=
    (nodup_keys_firsts e.sources).sublist (List.filter_sublist.map _)
  have hmem : ∀ key, key ∈ (e.firsts.filter Source.counted).map Source.key ↔
      key ∈ e.requestedKeys.toList := by
    intro key
    have hfirsts : ∀ s, s ∈ e.firsts.filter Source.counted ↔
        s ∈ e.sources.filter Source.counted := by
      intro s
      rw [List.mem_filter, List.mem_filter, canonical.mem_firsts]
    rw [← Ascending.mem_iff, requestedKeys, Ascending.mem_ofList]
    simp only [List.mem_map, hfirsts]
  have hperm : ((e.firsts.filter Source.counted).map Source.key).Perm e.requestedKeys.toList :=
    (List.perm_ext_iff_of_nodup hnodup e.requestedKeys.nodup).2 hmem
  calc e.firsts.countP Source.counted
    _ = (e.firsts.filter Source.counted).length := List.countP_eq_length_filter
    _ = ((e.firsts.filter Source.counted).map Source.key).length := (List.length_map _).symm
    _ = e.requestedKeys.size := hperm.length_eq

namespace Snapshot

open Loading

theorem refusals_eq_zero_iff {g : Snapshot} {n : Nat} :
    g.refusals n = 0 ↔ n = 0 ∨ g.rateLimit = none ∨
      ∃ window, g.rateLimit = some window ∧
        g.requests.toNat + n ≤ window.remaining.toNat := by
  unfold refusals
  cases g.rateLimit with
  | none => simp
  | some window =>
    simp only [reduceCtorEq, Option.some.injEq, exists_eq_left', false_or]
    omega

/-- What the moves of a finished run leave behind does not tell their order. -/
theorem load_of_canonical {e : Expr} {g : Snapshot} (canonical : e.Canonical) (workers : Workers)
    {schedule : Schedule} (finished : ((start e g).moves client (schedule e)).Finished)
    (bound : g.requests.toNat + e.requestedKeys.size < UInt32.size) :
    (load client workers schedule e g).client = g.after e.requestedKeys.size ∧
    (((start e g).moves client (schedule e)).registry.tasks.countP fun t =>
      t.outcome.any isRefusal) = g.refusals e.requestedKeys.size ∧
    ((∃ fetched, (load client workers schedule e g).result = .ok fetched) ↔
      g.refusals e.requestedKeys.size = 0 ∧ ∀ s ∈ e.sources, g.Keeps s) := by
  obtain ⟨order, hperm, h, -⟩ := finished.describes
  have hcount : order.countP Source.counted = e.requestedKeys.size := by
    rw [hperm.countP_eq, canonical.countP_counted]
  have hrefused : ((client.fetchAll g order).1.countP fun p => isRefusal p.2) =
      g.refusals e.requestedKeys.size := by
    rw [← hcount] at bound ⊢
    exact countP_isRefusal bound
  have hsources : ∀ s, s ∈ order ↔ s ∈ e.sources := fun s =>
    hperm.mem_iff.trans canonical.mem_firsts
  refine ⟨?_, (h.countP_tasks hperm _).trans hrefused, ?_⟩
  · rw [← hcount, ← fetchAll_snd]
    exact h.state
  · have hload := h.exists_results_iff finished.ran
    rw [filed, List.forall_mem_map] at hload
    refine hload.trans ?_
    rw [← hrefused, List.countP_eq_zero]
    constructor
    · intro hall
      have hok := fun p hp => (mem_fetchAll hp).1.1 (hall p hp)
      refine ⟨fun p hp => by simp [(hok p hp).1], fun s hs => ?_⟩
      have hmade : s ∈ (client.fetchAll g order).1.map Prod.fst := by
        rwa [Client.map_fst_fetchAll, hsources]
      obtain ⟨p, hp, rfl⟩ := List.mem_map.1 hmade
      exact (hok p hp).2
    · rintro ⟨hnone, hkeeps⟩ p hp
      have hmade : p.1 ∈ (client.fetchAll g order).1.map Prod.fst := List.mem_map_of_mem hp
      rw [Client.map_fst_fetchAll, hsources] at hmade
      exact (mem_fetchAll hp).1.2 ⟨by simpa using hnone p hp, hkeeps _ hmade⟩

theorem outcome_of_not_counted {e : Expr} {g : Snapshot} {ms : List Move}
    (finished : ((start e g).moves client ms).Finished) {t : Task}
    (ht : t ∈ ((start e g).moves client ms).registry.tasks) (hs : t.source.counted = false) :
    ∃ ids, t.outcome = some (.ok ids) := by
  obtain ⟨order, -, h, -⟩ := finished.describes
  obtain ⟨o, ho⟩ := Option.isSome_iff_exists.1 (finished.ran t ht)
  rw [h.tasks] at ht
  obtain ⟨s, -, rfl⟩ := List.mem_map.1 ht
  have hmade : (s, o) ∈ (client.fetchAll g order).1 := (Client.lookup_fetchAll h.nodup).1 ho
  obtain ⟨ids, rfl⟩ := (mem_fetchAll hmade).2 hs
  exact ⟨ids, ho⟩

/-- Whatever the order of the moves of a finished run, each key of a request is requested once, the
requests that the window does not allow are refused, and the run succeeds when none is refused and
the snapshot has the entries. -/
theorem load_throttled (files : Files) (source : String) (e : Expr) (g : Snapshot)
    (workers : Workers) (schedule : Schedule) (read : Expr.read files source = .ok e)
    (finished : ((start e g).moves client (schedule e)).Finished)
    (bound : g.requests.toNat + e.requestedKeys.size < UInt32.size) :
    let n := e.requestedKeys.size
    let tasks := ((start e g).moves client (schedule e)).registry.tasks
    let refused := tasks.countP fun t => t.outcome.any isRefusal
    (load client workers schedule e g).client = { g with requests := g.requests + .ofNat n } ∧
    (load client workers schedule e g).client.requests.toNat = g.requests.toNat + n ∧
    (∀ t ∈ tasks, ∀ set, t.source = .handles set → ∃ ids, t.outcome = some (.ok ids)) ∧
    (∀ window, g.rateLimit = some window →
      refused = n - min n (window.remaining.toNat - g.requests.toNat)) ∧
    (g.rateLimit = none → refused = 0) ∧
    (refused = 0 ↔ n = 0 ∨ g.rateLimit = none ∨
      ∃ window, g.rateLimit = some window ∧
        g.requests.toNat + n ≤ window.remaining.toNat) ∧
    ((∃ fetched, (load client workers schedule e g).result = .ok fetched) ↔
      refused = 0 ∧ ∀ s ∈ e.sources, g.Keeps s) ∧
    ∀ (others : Workers) (order : Schedule), ((start e g).moves client (order e)).Finished →
      ((∃ r, (execute files client others order source g).result = .ok r) ↔
        ∃ fetched, (load client workers schedule e g).result = .ok fetched) ∧
      (execute files client others order source g).client =
        (load client workers schedule e g).client := by
  intro n tasks refused
  have canonical := Expr.canonical_of_read read
  obtain ⟨hclient, hrefused, hload⟩ := load_of_canonical canonical workers finished bound
  have hrefused : refused = g.refusals n := hrefused
  refine ⟨hclient, ?_, ?_, ?_, ?_, ?_, ?_, ?_⟩
  · rw [hclient, toNat_requests_after bound]
  · intro t ht set hset
    exact outcome_of_not_counted finished ht (by rw [hset]; rfl)
  · intro window hwindow
    simp only [hrefused, refusals, hwindow]
  · intro hfree
    simp only [hrefused, refusals, hfree]
  · rw [hrefused, refusals_eq_zero_iff]
  · rw [hrefused]
    exact hload
  · intro others order finished'
    obtain ⟨hclient', -, hload'⟩ := load_of_canonical canonical others finished' bound
    have hexecute : execute files client others order source g =
        e.execute client others order g := by simp only [execute, read]
    rw [hexecute, Expr.execute_client, hclient', hclient, Expr.exists_execute_iff others finished']
    exact ⟨hload'.trans hload.symm, rfl⟩

/-- Both accounts have an entry, but only one request is allowed. -/
def oneRequest : Snapshot :=
  ((empty.withFollowers "a" [1, 2]).withFollowing "b" [2, 3]).withRateLimit
    ⟨1, 1, ⟨1970, 1, 1, 0, 0⟩⟩

/-- The account that is looked up last is blamed, and in every order there is one refusal. -/
theorem load_throttled_overlapping :
    Expr.read .error "a.followers & (b.following | A.followers)" = .ok .repeating ∧
      ((start .repeating oneRequest).moves client (overlapping .repeating)).Finished ∧
      oneRequest.requests.toNat + Expr.repeating.requestedKeys.size < UInt32.size ∧
      (((start .repeating oneRequest).moves client
        (overlapping .repeating)).registry.tasks.countP fun t => t.outcome.any isRefusal) = 1 ∧
      (load client {} overlapping .repeating oneRequest).client.requests.toNat = 2 ∧
      (∀ order : Schedule,
        ((start .repeating oneRequest).moves client (order .repeating)).Finished →
        ¬ ∃ r, (execute .error client {} order "a.followers & (b.following | A.followers)"
          oneRequest).result = .ok r) ∧
      (load client {} overlapping .repeating oneRequest).result =
        .error (.fetch "a.followers" (.rateLimited 1 0 ⟨1970, 1, 1, 0, 0⟩)) ∧
      (load client {} inOrder .repeating oneRequest).result =
        .error (.fetch "b.following" (.rateLimited 1 0 ⟨1970, 1, 1, 0, 0⟩)) := by
  have read : Expr.read .error "a.followers & (b.following | A.followers)" = .ok .repeating := by
    decide
  have finished : ((start .repeating oneRequest).moves client (overlapping .repeating)).Finished :=
    ⟨rfl, by decide⟩
  have bound : oneRequest.requests.toNat + Expr.repeating.requestedKeys.size < UInt32.size := by
    decide
  obtain ⟨-, hrequests, -, hrefused, -, -, hload, hall⟩ :=
    load_throttled .error _ .repeating oneRequest {} overlapping read finished bound
  have hone := hrefused _ rfl
  refine ⟨read, finished, bound, hone.trans (by decide),
    hrequests.trans (by decide), ?_, by decide, by decide⟩
  intro order finished'
  rw [(hall {} order finished').1, hload, hone]
  exact fun h => absurd h.1 (by decide)

end Snapshot

end AccountGroups
