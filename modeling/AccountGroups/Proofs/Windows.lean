import AccountGroups.Proofs.Throttling

/-!
# Windows over many usages

A snapshot counts the requests for ids of all usages of it, one after another, and counts those that
it refuses too. The count has 32 bits: until it comes round a window lets no more requests through
than it has left, and a refusal is final; then the window is open again.
-/

namespace AccountGroups

/-- How a client may be used: one call, the fetch of a source, or a run of a tree or a text. -/
inductive Usage where
  | call (request : Request)
  | fetch (source : Source)
  | load (workers : Workers) (schedule : Schedule) (e : Expr)
  | execute (workers : Workers) (schedule : Schedule) (e : Expr)
  | executeText (files : Files) (workers : Workers) (schedule : Schedule) (source : String)
  | explain (files : Files) (source : String)

namespace Client

variable {σ : Type} {c : Client σ} {P : σ → Prop}

/-- The client after a call. -/
def call (c : Client σ) (client : σ) : Request → σ
  | .followerIds handle => (c.followerIds handle client).2
  | .friendIds handle => (c.friendIds handle client).2
  | .listMembers owner list => (c.listMembers owner list client).2
  | .usersByHandle handles => (c.usersByHandle handles client).2
  | .usersById ids => (c.usersById ids client).2

/-- The client after a usage. A text is explained without it. -/
def serve (c : Client σ) (client : σ) : Usage → σ
  | .call request => c.call client request
  | .fetch source => (c.fetch source client).2
  | .load workers schedule e => (AccountGroups.load c workers schedule e client).client
  | .execute workers schedule e => (e.execute c workers schedule client).client
  | .executeText files workers schedule source =>
    (AccountGroups.execute files c workers schedule source client).client
  | .explain .. => client

/-- No call leads out of the property. -/
def Preserves (c : Client σ) (P : σ → Prop) : Prop :=
  ∀ client request, P client → P (c.call client request)

namespace Preserves

variable (h : c.Preserves P)
include h

theorem fetch {client : σ} (hc : P client) (source : Source) : P (c.fetch source client).2 := by
  cases source with
  | followers handle => exact h client (.followerIds handle) hc
  | following handle => exact h client (.friendIds handle) hc
  | members owner list => exact h client (.listMembers owner list) hc
  | handles set =>
    simp only [Client.fetch]
    split
    · exact hc
    · exact h client (.usersByHandle set.toList) hc

theorem move {l : Loading σ} (hl : P l.client) (m : Move) : P (l.move c m).client := by
  cases m with
  | register =>
    simp only [Loading.move]
    split <;> exact hl
  | run slot =>
    simp only [Loading.move]
    split
    · exact h.fetch hl _
    · exact hl

theorem moves {l : Loading σ} (hl : P l.client) (ms : List Move) : P (l.moves c ms).client := by
  induction ms using List.reverseRecOn with
  | nil => exact hl
  | append_singleton ms m ih =>
    rw [Loading.moves_concat]
    exact h.move ih m

theorem serve {client : σ} (hc : P client) (u : Usage) : P (c.serve client u) := by
  have load : ∀ workers schedule e, P (AccountGroups.load c workers schedule e client).client :=
    fun _ schedule e => h.moves hc (schedule e)
  cases u with
  | call request => exact h client request hc
  | fetch source => exact h.fetch hc source
  | load workers schedule e => exact load workers schedule e
  | execute workers schedule e =>
    rw [Client.serve, Expr.execute_client]
    exact load workers schedule e
  | executeText files workers schedule source =>
    rw [Client.serve, AccountGroups.execute]
    cases Expr.read files source with
    | error cause => exact hc
    | ok e =>
      rw [Expr.execute_client]
      exact load workers schedule e
  | explain => exact hc

/-- What no call leads out of, no sequence of usages does. -/
theorem foldl_serve {client : σ} (hc : P client) (usages : List Usage) :
    P (usages.foldl c.serve client) := by
  induction usages generalizing client with
  | nil => exact hc
  | cons u usages ih => exact ih (h.serve hc u)

end Preserves

def noted (call : Call σ (List AccountId)) : Call (σ × List FetchOutcome) (List AccountId) :=
  fun s => ((call s.1).1, (call s.1).2, s.2 ++ [(call s.1).1])

/-- The same client, with the answers to all requests for ids beside its state. -/
def answering (c : Client σ) : Client (σ × List FetchOutcome) where
  followerIds handle := noted (c.followerIds handle)
  friendIds handle := noted (c.friendIds handle)
  listMembers owner list := noted (c.listMembers owner list)
  usersByHandle handles s :=
    ((c.usersByHandle handles s.1).1, (c.usersByHandle handles s.1).2, s.2)
  usersById ids s := ((c.usersById ids s.1).1, (c.usersById ids s.1).2, s.2)

theorem fetch_answering (c : Client σ) (s : Source) (client : σ) (answers : List FetchOutcome) :
    c.answering.fetch s (client, answers) = ((c.fetch s client).1, (c.fetch s client).2,
      answers ++ if s.counted then [(c.fetch s client).1] else []) := by
  cases s with
  | followers | following | members => rfl
  | handles set =>
    have hnot : (Source.handles set).counted = false := rfl
    rw [hnot]
    simp only [fetch, Bool.false_eq_true, if_false, List.append_nil]
    split <;> rfl

/-- Keeping the answers changes nothing else. -/
theorem load_answering (c : Client σ) (workers : Workers) (schedule : Schedule) (e : Expr)
    (client : σ) (answers : List FetchOutcome) :
    let run := AccountGroups.load c.answering workers schedule e (client, answers)
    ⟨run.result, run.client.1, run.log⟩ = AccountGroups.load c workers schedule e client := by
  intro run
  have hmoves : (Loading.start e client).moves c (schedule e) =
      ((Loading.start e (client, answers)).moves c.answering (schedule e)).mapClient Prod.fst := by
    rw [← Loading.moves_mapClient]
    · rfl
    · rintro s ⟨x, as⟩
      rw [fetch_answering]
  simp only [AccountGroups.load, hmoves]
  rfl

theorem serve_answering (c : Client σ) (s : σ × List FetchOutcome) (u : Usage) :
    (c.answering.serve s u).1 = c.serve s.1 u := by
  have load : ∀ workers schedule e, (AccountGroups.load c.answering workers schedule e s).client.1 =
      (AccountGroups.load c workers schedule e s.1).client := fun workers schedule e =>
    congrArg Outcome.client (c.load_answering workers schedule e s.1 s.2)
  cases u with
  | call request => cases request <;> rfl
  | fetch source =>
    obtain ⟨client, answers⟩ := s
    rw [serve, serve, fetch_answering]
  | load workers schedule e => exact load workers schedule e
  | execute workers schedule e =>
    rw [serve, serve, Expr.execute_client, Expr.execute_client, load]
  | executeText files workers schedule source =>
    rw [serve, serve, AccountGroups.execute, AccountGroups.execute]
    cases Expr.read files source with
    | error cause => rfl
    | ok e => rw [Expr.execute_client, Expr.execute_client, load]
  | explain => rfl

theorem foldl_serve_answering (c : Client σ) (s : σ × List FetchOutcome) (usages : List Usage) :
    (usages.foldl c.answering.serve s).1 = usages.foldl c.serve s.1 := by
  induction usages generalizing s with
  | nil => rfl
  | cons u usages ih => rw [List.foldl_cons, List.foldl_cons, ih, serve_answering]

end Client

namespace Snapshot

variable {g : Snapshot} {w : RateLimit}

/-- The answers to all requests for ids of the usages, in the order of the requests. -/
def answers (g : Snapshot) (usages : List Usage) : List FetchOutcome :=
  (usages.foldl client.answering.serve (g, [])).2

/-- The outcome is that of a request: the refusal if there is one, and else none. -/
def Yields (g : Snapshot) (o : FetchOutcome) : Prop :=
  match g.refusal? with
  | some cause => o = .error cause
  | none => isRefusal o = false

theorem yields_request (table : Snapshot → KeyMap (List AccountId)) (name : String) :
    g.Yields (request table name g).1 := by
  unfold Yields request
  cases g.refusal? with
  | some cause => rfl
  | none =>
    rcases lookup_cases (table g) name with ⟨-, ids, hids⟩ | ⟨-, hmissing⟩
    · simp [hids, isRefusal]
    · simp [hmissing, isRefusal]

/-- After the answers, as many requests have been counted, and each has been answered at its own
count. -/
structure Tells (g : Snapshot) (s : Snapshot × List FetchOutcome) : Prop where
  snapshot : s.1 = g.after s.2.length
  answer : ∀ k o, s.2[k]? = some o → (g.after k).Yields o

theorem tells_nil : g.Tells (g, []) := ⟨after_zero.symm, by simp⟩

theorem Tells.noted {s : Snapshot × List FetchOutcome} (h : g.Tells s)
    (table : Snapshot → KeyMap (List AccountId)) (name : String) :
    g.Tells (Client.noted (request table name) s).2 := by
  obtain ⟨s, answers⟩ := s
  obtain ⟨hs, hanswer⟩ := h
  obtain rfl : s = g.after answers.length := hs
  let answer := (request table name (g.after answers.length)).1
  refine ⟨?_, fun k o hk => ?_⟩
  · show (request table name (g.after answers.length)).2 = g.after (answers ++ [answer]).length
    rw [List.length_append, List.length_singleton, ← after_after]
    unfold request
    split <;> rfl
  · have hconcat : (answers ++ [answer])[k]? = some o := hk
    rcases Registry.getElem?_concat_eq_some.1 hconcat with hold | ⟨rfl, rfl⟩
    · exact hanswer k o hold
    · exact yields_request table name

theorem preserves_tells : client.answering.Preserves g.Tells := by
  intro s request h
  cases request with
  | followerIds handle => exact h.noted followers handle
  | friendIds handle => exact h.noted following handle
  | listMembers owner list => exact h.noted lists (listName owner list)
  | usersByHandle | usersById => exact h

/-- The snapshot has counted as many requests as it has answered. -/
theorem foldl_serve_client (g : Snapshot) (usages : List Usage) :
    usages.foldl client.serve g = g.after (g.answers usages).length := by
  rw [← Client.foldl_serve_answering client (g, []) usages]
  exact (preserves_tells.foldl_serve tells_nil usages).snapshot

/-- Whatever the usages are, each request is answered at its own count. -/
theorem answers_getElem? (usages : List Usage) {k : Nat} {o : FetchOutcome}
    (h : (g.answers usages)[k]? = some o) : (g.after k).Yields o :=
  (preserves_tells.foldl_serve tells_nil usages).answer k o h

theorem yields_after_iff (window : g.rateLimit = some w) (fresh : g.requests = 0) {k : Nat}
    {o : FetchOutcome} : (g.after k).Yields o ↔
      if w.remaining.toNat ≤ k % UInt32.size then o = .error (.rateLimited w.limit 0 w.resetAt)
      else isRefusal o = false := by
  have hcount : g.requests.toNat + k = k := by
    rw [fresh]
    exact Nat.zero_add k
  unfold Yields
  rw [refusal?_after window, hcount]
  by_cases h : w.remaining.toNat ≤ k % UInt32.size
  · rw [if_pos h, if_pos h]
  · rw [if_neg h, if_neg h]

theorem isRefusal_of_yields (window : g.rateLimit = some w) (fresh : g.requests = 0) {k : Nat}
    {o : FetchOutcome} (h : (g.after k).Yields o) :
    isRefusal o = false ↔ k % UInt32.size < w.remaining.toNat := by
  rw [yields_after_iff window fresh] at h
  split at h
  · next hle => simp [h, isRefusal, hle]
  · next hlt => simp [h, Nat.lt_of_not_le hlt]

/-- In every round of `m` the first `r` count. -/
theorem rounds_succ {m r : Nat} (hr : r < m) (n : Nat) :
    (n + 1) / m * r + min ((n + 1) % m) r =
      n / m * r + min (n % m) r + if n % m < r then 1 else 0 := by
  have hm : 0 < m := Nat.zero_lt_of_lt hr
  have hn : n % m < m := Nat.mod_lt n hm
  have hdecomposed : n % m + m * (n / m) = n := Nat.mod_add_div n m
  by_cases hlast : n % m + 1 = m
  · obtain ⟨hdiv, hmod⟩ : (n + 1) / m = n / m + 1 ∧ (n + 1) % m = 0 := by
      rw [Nat.div_mod_unique hm]
      exact ⟨by rw [Nat.mul_succ]; omega, hm⟩
    rw [hdiv, hmod, Nat.succ_mul]
    split <;> omega
  · obtain ⟨hdiv, hmod⟩ : (n + 1) / m = n / m ∧ (n + 1) % m = n % m + 1 := by
      rw [Nat.div_mod_unique hm]
      exact ⟨by omega, by omega⟩
    rw [hdiv, hmod]
    split <;> omega

theorem countP_rounds {α : Type} {p : α → Bool} {m r : Nat} (hr : r < m) {xs : List α}
    (h : ∀ k x, xs[k]? = some x → (p x = true ↔ k % m < r)) :
    xs.countP p = xs.length / m * r + min (xs.length % m) r := by
  induction xs using List.reverseRecOn with
  | nil => simp
  | append_singleton xs x ih =>
    have hx : p x = true ↔ xs.length % m < r :=
      h xs.length x (Registry.getElem?_concat_eq_some.2 (.inr ⟨rfl, rfl⟩))
    have hxs := ih fun k y hk => h k y (Registry.getElem?_concat_eq_some.2 (.inl hk))
    rw [List.countP_append, List.countP_singleton, hxs, List.length_append, List.length_singleton,
      rounds_succ hr]
    simp only [hx]

theorem countP_answers (window : g.rateLimit = some w) (fresh : g.requests = 0)
    (usages : List Usage) :
    (g.answers usages).countP (fun o => !isRefusal o) =
      (g.answers usages).length / UInt32.size * w.remaining.toNat +
        min ((g.answers usages).length % UInt32.size) w.remaining.toNat := by
  refine countP_rounds w.remaining.toNat_lt fun k o hk => ?_
  rw [Bool.not_eq_true', isRefusal_of_yields window fresh (answers_getElem? usages hk)]

/-- The requests of all usages of a new snapshot, one after another: in each round of the count the
window lets the first ones through and refuses the others. So until the count comes round, no more
requests are served than the window has left, and after a refusal each request is refused. -/
theorem answers_in_windows (g : Snapshot) (w : RateLimit) (usages : List Usage)
    (window : g.rateLimit = some w) (fresh : g.requests = 0) :
    let answers := g.answers usages
    let served := answers.countP fun o => !isRefusal o
    let refusal : FetchOutcome := .error (.rateLimited w.limit 0 w.resetAt)
    usages.foldl client.serve g = g.after answers.length ∧
    (∀ k o, answers[k]? = some o →
      if w.remaining.toNat ≤ k % UInt32.size then o = refusal else isRefusal o = false) ∧
    served = answers.length / UInt32.size * w.remaining.toNat +
      min (answers.length % UInt32.size) w.remaining.toNat ∧
    (answers.length ≤ UInt32.size → served ≤ w.remaining.toNat ∧
      ∀ (i j : Nat) o o', i < j → answers[i]? = some o → isRefusal o = true →
        answers[j]? = some o' → o' = refusal) := by
  intro answers served refusal
  have answered : ∀ k o, answers[k]? = some o →
      if w.remaining.toNat ≤ k % UInt32.size then o = refusal else isRefusal o = false :=
    fun k o hk => (yields_after_iff window fresh).1 (answers_getElem? usages hk)
  have counted : served = answers.length / UInt32.size * w.remaining.toNat +
      min (answers.length % UInt32.size) w.remaining.toNat := countP_answers window fresh usages
  refine ⟨foldl_serve_client g usages, answered, counted,
    fun short => ⟨?_, fun i j o o' hij hi ho hj => ?_⟩⟩
  · rw [counted]
    rcases Nat.lt_or_eq_of_le short with hlt | heq
    · rw [Nat.div_eq_of_lt hlt, Nat.zero_mul, Nat.zero_add]
      exact Nat.min_le_right ..
    · rw [heq, Nat.div_self (by decide), Nat.mod_self]
      omega
  · have hjlen : j < answers.length := (List.getElem?_eq_some_iff.1 hj).1
    have hi' := answered i o hi
    have hj' := answered j o' hj
    rw [Nat.mod_eq_of_lt (by omega)] at hi' hj'
    split at hi'
    · rwa [if_pos (by omega)] at hj'
    · rw [hi'] at ho
      cases ho

/-- Three usages with four requests, of which the first one is served. -/
def threeUsages : List Usage :=
  [.call (.followerIds "a"), .fetch (.following "b"), .load {} overlapping .repeating]

theorem answers_in_windows_oneRequest :
    let refusal : FetchOutcome := .error (.rateLimited 1 0 ⟨1970, 1, 1, 0, 0⟩)
    oneRequest.rateLimit = some ⟨1, 1, ⟨1970, 1, 1, 0, 0⟩⟩ ∧ oneRequest.requests = 0 ∧
      oneRequest.answers threeUsages = [.ok [1, 2], refusal, refusal, refusal] ∧
      (oneRequest.answers threeUsages).length ≤ UInt32.size ∧
      ((oneRequest.answers threeUsages).countP fun o => !isRefusal o) ≤ 1 ∧
      ∀ (j : Nat) o, 1 < j → (oneRequest.answers threeUsages)[j]? = some o → o = refusal := by
  intro refusal
  have answers : oneRequest.answers threeUsages = [.ok [1, 2], refusal, refusal, refusal] := by
    decide
  have short : (oneRequest.answers threeUsages).length ≤ UInt32.size := by
    rw [answers]
    decide
  obtain ⟨-, -, -, hshort⟩ := answers_in_windows oneRequest _ threeUsages rfl rfl
  obtain ⟨hserved, hfinal⟩ := hshort short
  refine ⟨rfl, rfl, answers, short, hserved, fun j o hj ho => ?_⟩
  exact hfinal 1 j refusal o hj (by rw [answers]; rfl) rfl ho

/-- One call made again and again: only the count goes on. -/
theorem answers_replicate (g : Snapshot) (handle : String) (n : Nat) :
    g.answers (List.replicate n (.call (.followerIds handle))) =
      (List.range n).map fun k => (client.followerIds handle (g.after k)).1 := by
  have hstate : ∀ n, (List.replicate n (Usage.call (.followerIds handle))).foldl
      client.answering.serve (g, []) =
        (g.after n, (List.range n).map fun k => (client.followerIds handle (g.after k)).1) := by
    intro n
    induction n with
    | zero => rw [after_zero]; rfl
    | succ n ih =>
      have hnext : (client.followerIds handle (g.after n)).2 = g.after (n + 1) := by
        rw [← after_after]
        exact fetch_snd (.followers handle)
      rw [List.replicate_succ', List.foldl_append, ih, List.range_succ, List.map_append, ← hnext]
      rfl
  rw [answers, hstate]

/-- With room for one request, the same call is served, refused, and served again when 2 ^ 32 calls
have been counted. -/
theorem window_opens_again :
    let usages := List.replicate (UInt32.size + 1) (Usage.call (.followerIds "a"))
    oneRequest.rateLimit = some ⟨1, 1, ⟨1970, 1, 1, 0, 0⟩⟩ ∧ oneRequest.requests = 0 ∧
      (oneRequest.answers usages)[1]? = some (.error (.rateLimited 1 0 ⟨1970, 1, 1, 0, 0⟩)) ∧
      (oneRequest.answers usages)[UInt32.size]? = some (.ok [1, 2]) ∧
      ((oneRequest.answers usages).countP fun o => !isRefusal o) = 2 := by
  intro usages
  have hanswers : oneRequest.answers usages = (List.range (UInt32.size + 1)).map fun k =>
      (client.followerIds "a" (oneRequest.after k)).1 := answers_replicate oneRequest "a" _
  have hlength : (oneRequest.answers usages).length = UInt32.size + 1 := by
    rw [hanswers, List.length_map, List.length_range]
  have hround : oneRequest.after UInt32.size = oneRequest.after 0 := rfl
  refine ⟨rfl, rfl, ?_, ?_, ?_⟩
  · rw [hanswers, List.getElem?_map, List.getElem?_range (by decide)]
    decide
  · rw [hanswers, List.getElem?_map, List.getElem?_range (by decide), Option.map_some, hround]
    decide
  · rw [countP_answers rfl rfl, hlength]
    decide

end Snapshot

end AccountGroups
