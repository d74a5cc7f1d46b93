import AccountGroups.Proofs.Failures
import AccountGroups.Proofs.InTurn

/-!
# The log of a run in turn

The log of a run in turn tells of each distinct key, in the order of first places, that its fetch
starts and right after that how it ended, and at last of the group if there is one. What goes wrong
is a warning, so that a run fails when its log has a warning, and it fails as the first one says.
-/

namespace AccountGroups

namespace Event

/-- What an event tells: the level, the message, and the fields as texts. -/
def entry (ev : Event) : Level × String × List (String × String) :=
  (ev.level, ev.message, ev.fields)

def isWarning (ev : Event) : Bool := ev.level == .warn

/-- What is written of a fetch tells how it ended. -/
theorem entry_ofOutcome (key : String) (o : FetchOutcome) :
    (∃ ids, o = .ok ids ∧ (ofOutcome key o).entry =
      (.debug, "fetch finished", [("cache_key", key), ("count", toString ids.length)])) ∨
    (∃ limit remaining resetAt, o = .error (.rateLimited limit remaining resetAt) ∧
      (ofOutcome key o).entry = (.warn, "rate limited",
        [("cache_key", key), ("limit", toString limit.toNat),
          ("remaining", toString remaining.toNat), ("reset_at", resetAt.display)])) ∨
    ∃ error, o = .error error ∧ isRefusal o = false ∧ (ofOutcome key o).entry =
      (.warn, "fetch failed", [("cache_key", key), ("error", error.message)]) := by
  cases o with
  | ok ids => exact .inl ⟨ids, rfl, rfl⟩
  | error error =>
    cases error with
    | rateLimited limit remaining resetAt =>
      exact .inr (.inl ⟨limit, remaining, resetAt, rfl, rfl⟩)
    | notFound | service => exact .inr (.inr ⟨_, rfl, rfl, rfl⟩)

theorem isWarning_ofOutcome (p : Source × FetchOutcome) :
    (ofOutcome p.1.key p.2).isWarning = Loading.failed p := by
  obtain ⟨s, o⟩ := p
  cases o with
  | ok ids => rfl
  | error error => cases error <;> rfl

theorem ofOutcome_error_inj {key key' : String} {error error' : GraphError}
    (h : ofOutcome key (.error error) = ofOutcome key' (.error error')) :
    key = key' ∧ error = error' := by
  cases error <;> cases error' <;> simp_all [ofOutcome]

end Event

open Loading

variable {σ : Type} {c : Client σ} {client : σ}

/-- The first warning about fetches tells of the first fetch that failed. -/
theorem find?_isWarning_events (made : List (Source × FetchOutcome)) :
    (made.flatMap events).find? Event.isWarning =
      (made.find? failed).map fun p => .ofOutcome p.1.key p.2 := by
  induction made with
  | nil => rfl
  | cons p made ih =>
    have hstarted : (Event.fetchStarted p.1.key).isWarning = false := rfl
    have hevents : (events p).find? Event.isWarning =
        if failed p then some (.ofOutcome p.1.key p.2) else none := by
      rw [events, List.find?_cons_of_neg (by simp [hstarted]), List.find?_singleton,
        Event.isWarning_ofOutcome]
    rw [List.flatMap_cons, List.find?_append, hevents, ih, List.find?_cons]
    cases failed p <;> rfl

/-- The events behind those of the fetches. -/
def closing (e : Expr) : Except ExecutionError Result → List Event
  | .ok r => [.evaluated e.render r.fetches r.references r.group.isComplement r.group.listed.size]
  | .error _ => []

theorem Expr.execute_log (c : Client σ) (workers : Workers) (schedule : Schedule) (e : Expr)
    (client : σ) :
    (e.execute c workers schedule client).log = (load c workers schedule e client).log ++
      closing e (e.execute c workers schedule client).result := by
  rw [Expr.execute]
  cases (load c workers schedule e client).result with
  | error failure => exact (List.append_nil _).symm
  | ok fetched =>
    cases hg : e.evaluate fetched with
    | error cause => simp only [hg, closing, List.append_nil]
    | ok g => simp only [hg, closing]

section InTurn

variable {schedule : Schedule} {e : Expr} (inTurn : InTurn (schedule e))
variable (finished : ((start e client).moves c (schedule e)).Finished)
include inTurn finished

theorem Expr.log_inTurn (workers : Workers) :
    (e.execute c workers schedule client).log =
      .loading e.sources.length e.distinctKeys.size (workers.count e.distinctKeys.size) ::
        (c.fetchAll client e.firsts).1.flatMap events ++
        closing e (e.execute c workers schedule client).result := by
  rw [Expr.execute_log, load, (finished.describes_inTurn inTurn).log]

theorem Expr.find?_isWarning_log (workers : Workers) :
    (e.execute c workers schedule client).log.find? Event.isWarning =
      ((c.fetchAll client e.firsts).1.find? failed).map fun p => .ofOutcome p.1.key p.2 := by
  have hloading (references distinct workers : Nat) :
      ¬ (Event.loading references distinct workers).isWarning = true := Bool.false_ne_true
  have hclosing (r : Except ExecutionError Result) :
      (closing e r).find? Event.isWarning = none := by
    cases r <;> rfl
  rw [Expr.log_inTurn inTurn finished, List.cons_append, List.find?_cons_of_neg (hloading _ _ _),
    List.find?_append, hclosing, Option.or_none, find?_isWarning_events]

/-- A run in turn fails as the first warning in its log says. -/
theorem Expr.execute_eq_error_iff_warning (workers : Workers) (failure : ExecutionError) :
    (e.execute c workers schedule client).result = .error failure ↔
      ∃ key error, failure = .fetch key error ∧
        (e.execute c workers schedule client).log.find? Event.isWarning =
          some (.ofOutcome key (.error error)) := by
  rw [Expr.execute_eq_error_iff finished, Expr.find?_isWarning_log inTurn finished]
  refine ((finished.describes_inTurn inTurn).results_inTurn failure).trans ?_
  constructor
  · rintro ⟨s, error, hfirst, rfl⟩
    exact ⟨s.key, error, rfl, Option.map_eq_some_iff.2 ⟨_, hfirst, rfl⟩⟩
  · rintro ⟨key, error, rfl, hwarning⟩
    obtain ⟨⟨s, o⟩, hfirst, hevent⟩ := Option.map_eq_some_iff.1 hwarning
    obtain ⟨error', rfl⟩ := failed_iff.1 (List.find?_some hfirst)
    obtain ⟨rfl, rfl⟩ := Event.ofOutcome_error_inj hevent
    exact ⟨s, error', hfirst, rfl⟩

end InTurn

/-- What the events of a run in turn tell. There is the opening entry, two entries for the fetch
of each distinct key in the order of first places, and a closing entry if there is a group. The run
fails, as loading does, when there is a warning, and with the failure that the first one tells. -/
theorem execute_tells (c : Client σ) (workers : Workers) (schedule : Schedule) (e : Expr)
    (client : σ) (inTurn : InTurn (schedule e))
    (finished : ((start e client).moves c (schedule e)).Finished) :
    let run := e.execute c workers schedule client
    let keys := (e.sources.map Source.key).eraseDups
    let made := (c.fetchAll client e.firsts).1
    made.map Prod.fst = e.firsts ∧ e.firsts.map Source.key = keys ∧
    (∃ closing, run.log.map Event.entry =
      (.debug, "loading primitives", [("references", toString e.sources.length),
        ("distinct", toString keys.length), ("workers", toString (workers.count keys.length))]) ::
      (made.flatMap fun p => [(.debug, "fetch started", [("cache_key", p.1.key)]),
        (Event.ofOutcome p.1.key p.2).entry]) ++ closing ∧
      (∀ r, run.result = .ok r → closing = [(.info, "expression evaluated",
        [("expression", e.render), ("fetches", toString r.fetches),
          ("references", toString r.references),
          ("complement", if r.group.isComplement then "true" else "false"),
          ("count", toString r.group.listed.size)])]) ∧
      ∀ failure, run.result = .error failure → closing = []) ∧
    (∀ p ∈ made,
      (∃ ids, p.2 = .ok ids ∧ (Event.ofOutcome p.1.key p.2).entry = (.debug, "fetch finished",
        [("cache_key", p.1.key), ("count", toString ids.length)])) ∨
      (∃ limit remaining resetAt, p.2 = .error (.rateLimited limit remaining resetAt) ∧
        (Event.ofOutcome p.1.key p.2).entry = (.warn, "rate limited",
          [("cache_key", p.1.key), ("limit", toString limit.toNat),
            ("remaining", toString remaining.toNat), ("reset_at", resetAt.display)])) ∨
      ∃ error, p.2 = .error error ∧ isRefusal p.2 = false ∧
        (Event.ofOutcome p.1.key p.2).entry =
          (.warn, "fetch failed", [("cache_key", p.1.key), ("error", error.message)])) ∧
    (∀ failure, run.result = .error failure ↔
      (load c workers schedule e client).result = .error failure) ∧
    ((∃ failure, run.result = .error failure) ↔ ∃ ev ∈ run.log, ev.level = .warn) ∧
    ∀ failure, run.result = .error failure ↔ ∃ key error, failure = .fetch key error ∧
      (run.log.find? fun ev => ev.level == .warn) = some (.ofOutcome key (.error error)) := by
  intro run keys made
  have hkeys : e.firsts.map Source.key = keys := keys_firsts e.sources
  have hlength : e.distinctKeys.size = keys.length := by
    rw [size_distinctKeys, ← hkeys, List.length_map]
  have hfails := Expr.execute_eq_error_iff_warning inTurn finished workers
  refine ⟨Client.map_fst_fetchAll c client e.firsts, hkeys,
    ⟨(closing e run.result).map Event.entry, ?_, fun r hr => by rw [hr]; rfl,
      fun failure hfailure => by rw [hfailure]; rfl⟩,
    fun p _ => Event.entry_ofOutcome p.1.key p.2,
    Expr.execute_eq_error_iff finished workers, ?_, hfails⟩
  · have hlog : run.log = .loading e.sources.length keys.length (workers.count keys.length) ::
        made.flatMap events ++ closing e run.result :=
      hlength ▸ Expr.log_inTurn inTurn finished workers
    rw [hlog, List.map_append, List.map_cons, List.map_flatMap]
    rfl
  · constructor
    · rintro ⟨failure, hfailure⟩
      obtain ⟨key, error, -, hwarning⟩ := (hfails failure).1 hfailure
      have hlevel : Event.isWarning (.ofOutcome key (.error error)) = true :=
        List.find?_some hwarning
      exact ⟨_, List.mem_of_find?_eq_some hwarning, beq_iff_eq.1 hlevel⟩
    · rintro ⟨ev, hmem, hlevel⟩
      have hsome : (run.log.find? Event.isWarning).isSome :=
        List.find?_isSome.2 ⟨ev, hmem, beq_iff_eq.2 hlevel⟩
      obtain ⟨first, hfirst⟩ := Option.isSome_iff_exists.1 hsome
      obtain ⟨⟨s, o⟩, hmade, rfl⟩ := Option.map_eq_some_iff.1
        ((Expr.find?_isWarning_log inTurn finished workers).symm.trans hfirst)
      obtain ⟨error, rfl⟩ := failed_iff.1 (List.find?_some hmade)
      exact ⟨_, (hfails _).2 ⟨s.key, error, rfl, hfirst⟩⟩

/-- The first task runs before the source behind its own is registered. -/
def eager : Schedule := fun _ => [.register, .run 0, .register, .register, .run 1]

/-- The second request is refused, so that the log ends with the warning. -/
theorem execute_tells_eager :
    let run := Expr.repeating.execute Snapshot.client ⟨some 1, "w"⟩ eager Snapshot.oneRequest
    InTurn (eager .repeating) ∧
      ((start .repeating Snapshot.oneRequest).moves Snapshot.client (eager .repeating)).Finished ∧
      (∃ failure, run.result = .error failure ∧
        ∃ key error, failure = .fetch key error ∧
          (run.log.find? fun ev => ev.level == .warn) = some (.ofOutcome key (.error error))) ∧
      run.log.map Event.entry =
        [(.debug, "loading primitives",
            [("references", "3"), ("distinct", "2"), ("workers", "1")]),
          (.debug, "fetch started", [("cache_key", "a.followers")]),
          (.debug, "fetch finished", [("cache_key", "a.followers"), ("count", "2")]),
          (.debug, "fetch started", [("cache_key", "b.following")]),
          (.warn, "rate limited", [("cache_key", "b.following"), ("limit", "1"),
            ("remaining", "0"), ("reset_at", "1970-01-01 00:00:00 UTC")])] := by
  intro run
  have inTurn : InTurn (eager .repeating) := by decide
  have finished : ((start .repeating Snapshot.oneRequest).moves Snapshot.client
      (eager .repeating)).Finished := ⟨rfl, by decide⟩
  obtain ⟨-, -, -, -, -, hwarned, hfirst⟩ := execute_tells Snapshot.client ⟨some 1, "w"⟩ eager
    .repeating Snapshot.oneRequest inTurn finished
  obtain ⟨failure, hfailure⟩ := hwarned.2
    ⟨.rateLimited "b.following" 1 0 ⟨1970, 1, 1, 0, 0⟩, by decide, rfl⟩
  exact ⟨inTurn, finished, ⟨failure, hfailure, (hfirst failure).1 hfailure⟩, by decide⟩

end AccountGroups
