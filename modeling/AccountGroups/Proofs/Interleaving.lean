import AccountGroups.Proofs.Registration

/-!
# Loading under every interleaving

A run of loading, at each moment, is the state that two lists determine: the sources registered so
far, and the sources whose tasks have run, in the order in which they ran. So a finished run has
fetched the first source of each key once, and collects what these fetches gave.
-/

namespace AccountGroups

/-- The task of a source when the fetches on the record have been made. -/
def taskAfter (made : List (Source × FetchOutcome)) (s : Source) : Task :=
  ⟨s.key, s, made.lookup s⟩

/-- One more fetch gives the task of its source an outcome, and no other task changes. -/
theorem modify_taskAfter {ss : List Source} {made : List (Source × FetchOutcome)} {slot : Nat}
    {s : Source} (nodup : ss.Nodup) (hs : ss[slot]? = some s) (hnew : made.lookup s = none)
    (o : FetchOutcome) :
    ((ss.map (taskAfter made)).modify slot fun t => { t with outcome := some o }) =
      ss.map (taskAfter (made ++ [(s, o)])) := by
  apply List.ext_getElem?
  intro i
  rw [List.getElem?_modify, List.getElem?_map, List.getElem?_map]
  by_cases hi : slot = i
  · subst hi
    simp [hs, taskAfter, List.lookup_append, hnew]
  · cases ht : ss[i]? with
    | none => rfl
    | some t =>
      have hne : t ≠ s := by
        rintro rfl
        have hlt := (List.getElem?_eq_some_iff.1 hs).1
        exact hi ((List.getElem?_inj hlt nodup).1 (hs.trans ht.symm))
      have hlookup : [(s, o)].lookup t = none := by
        rw [List.lookup_cons, beq_eq_false_iff_ne.2 hne]
        rfl
      simp [hi, taskAfter, List.lookup_append, hlookup]

namespace Loading

variable {σ : Type} {c : Client σ} {client : σ} {seen ran : List Source} {l : Loading σ}

def events (p : Source × FetchOutcome) : List Event :=
  [.fetchStarted p.1.key, .ofOutcome p.1.key p.2]

/-- The state when the sources `seen` have been registered, and the tasks of the sources `ran` have
run, one after another. -/
structure Describes (c : Client σ) (client : σ) (seen ran : List Source) (l : Loading σ) :
    Prop where
  indexed : l.registry.Indexed
  tasks : l.registry.tasks = (firsts seen).map (taskAfter (c.fetchAll client ran).1)
  nodup : ran.Nodup
  subset : ran ⊆ firsts seen
  state : l.client = (c.fetchAll client ran).2
  log : l.log = (c.fetchAll client ran).1.flatMap events

theorem describes_start (e : Expr) : (start e client).Describes c client [] [] where
  indexed := Registry.indexed_empty
  tasks := rfl
  nodup := List.nodup_nil
  subset := List.nil_subset _
  state := rfl
  log := rfl

theorem Describes.keys (h : l.Describes c client seen ran) :
    l.registry.tasks.map Task.key = (firsts seen).map Source.key := by
  rw [h.tasks, List.map_map]
  rfl

theorem Describes.register {waiting : List Source} {s : Source}
    (h : l.Describes c client seen ran) (hw : l.waiting = s :: waiting) :
    (l.move c .register).waiting = waiting ∧
      (l.move c .register).Describes c client (seen ++ [s]) ran := by
  have hmove : l.move c .register = { l with
      waiting := waiting, registry := (l.registry.register s.key s).registry } := by
    simp only [move, hw]
  rw [hmove]
  refine ⟨rfl, Registry.indexed_register h.indexed _ _, ?_, h.nodup, ?_, h.state, h.log⟩
  · rw [firsts_concat]
    split
    · next hk =>
      rw [Registry.register_of_mem h.indexed (h.keys ▸ hk)]
      exact h.tasks
    · next hk =>
      have hs : s ∉ ran := fun hs => hk (List.mem_map_of_mem (h.subset hs))
      rw [Registry.register_of_not_mem h.indexed (h.keys ▸ hk), List.map_append, ← h.tasks,
        List.map_singleton, taskAfter, Client.lookup_fetchAll_eq_none.2 hs]
  · intro t ht
    rw [firsts_concat]
    split
    · exact h.subset ht
    · exact List.mem_append_left _ (h.subset ht)

theorem Describes.run {slot : Nat} {s : Source}
    (h : l.Describes c client seen ran) (hs : (firsts seen)[slot]? = some s) (hran : s ∉ ran) :
    (l.move c (.run slot)).waiting = l.waiting ∧
      (l.move c (.run slot)).Describes c client seen (ran ++ [s]) := by
  have htask : l.registry.tasks[slot]? = some ⟨s.key, s, none⟩ := by
    rw [h.tasks, List.getElem?_map, hs, Option.map_some, taskAfter,
      Client.lookup_fetchAll_eq_none.2 hran]
  have hmove : l.move c (.run slot) = { l with
      registry := l.registry.setOutcome slot (c.fetch s l.client).1
      client := (c.fetch s l.client).2
      log := l.log ++ events (s, (c.fetch s l.client).1) } := by
    simp only [move, htask]
    rfl
  rw [hmove]
  refine ⟨rfl, Registry.indexed_setOutcome h.indexed _ _, ?_, ?_, ?_, ?_, ?_⟩
  · rw [Registry.setOutcome, h.tasks, Client.fetchAll_concat, h.state]
    exact modify_taskAfter (nodup_firsts seen) hs (Client.lookup_fetchAll_eq_none.2 hran) _
  · rw [List.nodup_append]
    refine ⟨h.nodup, by simp, ?_⟩
    rintro t ht _ hu rfl
    exact hran (List.mem_singleton.1 hu ▸ ht)
  · intro t ht
    rcases List.mem_append.1 ht with ht | ht
    · exact h.subset ht
    · rw [List.mem_singleton.1 ht]
      exact List.mem_of_getElem? hs
  · rw [Client.fetchAll_concat, h.state]
  · rw [Client.fetchAll_concat, List.flatMap_append, ← h.log, h.state]
    simp

/-- A source is registered, unless none waits. -/
theorem Describes.move_register (h : l.Describes c client seen ran) :
    l.move c .register = l ∨ ∃ s, l.waiting = s :: (l.move c .register).waiting ∧
      (l.move c .register).Describes c client (seen ++ [s]) ran := by
  cases hw : l.waiting with
  | nil => exact .inl (by simp only [Loading.move, hw])
  | cons s waiting =>
    obtain ⟨hwaiting, hnext⟩ := h.register hw
    exact .inr ⟨s, by rw [hwaiting], hnext⟩

/-- A task runs, unless it does not exist or has run before. -/
theorem Describes.move_run (h : l.Describes c client seen ran) (slot : Nat) :
    l.move c (.run slot) = l ∨ ∃ s, (firsts seen)[slot]? = some s ∧
      (l.move c (.run slot)).waiting = l.waiting ∧
      (l.move c (.run slot)).Describes c client seen (ran ++ [s]) := by
  cases hs : (firsts seen)[slot]? with
  | none =>
    have htask : l.registry.tasks[slot]? = none := by rw [h.tasks, List.getElem?_map, hs]; rfl
    exact .inl (by simp only [Loading.move, htask])
  | some s =>
    by_cases hran : s ∈ ran
    · obtain ⟨o, ho⟩ : ∃ o, (c.fetchAll client ran).1.lookup s = some o :=
        Option.ne_none_iff_exists'.1 fun ho => Client.lookup_fetchAll_eq_none.1 ho hran
      have htask : l.registry.tasks[slot]? = some ⟨s.key, s, some o⟩ := by
        rw [h.tasks, List.getElem?_map, hs, Option.map_some, taskAfter, ho]
      exact .inl (by simp only [Loading.move, htask])
    · exact .inr ⟨s, rfl, h.run hs hran⟩

/-- What one move does: a source is registered, a task runs, or nothing happens. -/
theorem Describes.move (h : l.Describes c client seen ran) (m : Move) :
    ∃ seen' ran', seen' ++ (l.move c m).waiting = seen ++ l.waiting ∧
      (l.move c m).Describes c client seen' ran' := by
  cases m with
  | register =>
    rcases h.move_register with hsame | ⟨s, hwaiting, hnext⟩
    · rw [hsame]
      exact ⟨seen, ran, rfl, h⟩
    · exact ⟨seen ++ [s], ran, by rw [hwaiting, List.append_assoc]; rfl, hnext⟩
  | run slot =>
    rcases h.move_run slot with hsame | ⟨s, -, hwaiting, hnext⟩
    · rw [hsame]
      exact ⟨seen, ran, rfl, h⟩
    · exact ⟨seen, ran ++ [s], by rw [hwaiting], hnext⟩

theorem moves_concat (l : Loading σ) (ms : List Move) (m : Move) :
    l.moves c (ms ++ [m]) = (l.moves c ms).move c m := by
  rw [moves, List.foldl_append]
  rfl

/-- Every moment of every run is such a state: what waits is what has not been seen. -/
theorem describes_moves (c : Client σ) (e : Expr) (client : σ) (ms : List Move) :
    ∃ seen ran, seen ++ ((start e client).moves c ms).waiting = e.sources ∧
      ((start e client).moves c ms).Describes c client seen ran := by
  induction ms using List.reverseRecOn with
  | nil => exact ⟨[], [], rfl, describes_start e⟩
  | append_singleton ms m ih =>
    obtain ⟨seen, ran, hseen, h⟩ := ih
    obtain ⟨seen', ran', hseen', h'⟩ := h.move m
    rw [moves_concat]
    exact ⟨seen', ran', hseen'.trans hseen, h'⟩

/-- All sources have been registered and all tasks have run. -/
structure Finished (l : Loading σ) : Prop where
  registered : l.waiting = []
  ran : ∀ t ∈ l.registry.tasks, t.outcome.isSome

theorem Describes.perm_of_finished {e : Expr} (h : l.Describes c client seen ran)
    (hseen : seen ++ l.waiting = e.sources) (finished : l.Finished) :
    seen = e.sources ∧ ran.Perm e.firsts := by
  rw [finished.registered, List.append_nil] at hseen
  subst hseen
  refine ⟨rfl, (List.perm_ext_iff_of_nodup h.nodup (nodup_firsts _)).2 fun s => ?_⟩
  constructor
  · exact fun hs => h.subset hs
  · intro hs
    by_contra hran
    have ht : taskAfter (c.fetchAll client ran).1 s ∈ l.registry.tasks := by
      rw [h.tasks]
      exact List.mem_map_of_mem hs
    have hsome := finished.ran _ ht
    rw [taskAfter, Client.lookup_fetchAll_eq_none.2 hran] at hsome
    cases hsome

theorem Describes.finished (h : l.Describes c client seen ran) (hw : l.waiting = [])
    (hall : firsts seen ⊆ ran) : l.Finished := by
  refine ⟨hw, fun t ht => ?_⟩
  rw [h.tasks] at ht
  obtain ⟨s, hs, rfl⟩ := List.mem_map.1 ht
  rw [Option.isSome_iff_ne_none]
  exact fun hnone => Client.lookup_fetchAll_eq_none.1 hnone (hall hs)

theorem Describes.exists_finished_of_registered {ran : List Source} {l : Loading σ}
    (h : l.Describes c client seen ran) (hw : l.waiting = []) :
    ∃ more, (l.moves c more).Finished := by
  by_cases hall : ∀ s ∈ firsts seen, s ∈ ran
  · exact ⟨[], h.finished hw hall⟩
  · push Not at hall
    obtain ⟨s, hs, hran⟩ := hall
    obtain ⟨slot, hslot⟩ := List.mem_iff_getElem?.1 hs
    obtain ⟨hwaiting, hnext⟩ := h.run hslot hran
    have hle : (ran ++ [s]).length ≤ (firsts seen).length :=
      List.Nodup.length_le_of_subset hnext.nodup hnext.subset
    have hlt : (firsts seen).length - (ran ++ [s]).length < (firsts seen).length - ran.length := by
      rw [List.length_append, List.length_singleton] at hle ⊢
      omega
    obtain ⟨more, hmore⟩ := hnext.exists_finished_of_registered (hwaiting.trans hw)
    exact ⟨.run slot :: more, hmore⟩
termination_by (firsts seen).length - ran.length

theorem Describes.exists_finished {seen : List Source} {l : Loading σ}
    (h : l.Describes c client seen ran) : ∃ more, (l.moves c more).Finished := by
  cases hw : l.waiting with
  | nil => exact h.exists_finished_of_registered hw
  | cons s waiting =>
    obtain ⟨hwaiting, hnext⟩ := h.register hw
    obtain ⟨more, hmore⟩ := hnext.exists_finished
    exact ⟨.register :: more, hmore⟩
termination_by l.waiting.length
decreasing_by simp [hw, hwaiting]

/-- Every run can go on until it is over. -/
theorem exists_finished (c : Client σ) (e : Expr) (client : σ) (ms : List Move) :
    ∃ more, ((start e client).moves c (ms ++ more)).Finished := by
  obtain ⟨seen, ran, -, h⟩ := describes_moves c e client ms
  obtain ⟨more, hmore⟩ := h.exists_finished
  refine ⟨more, ?_⟩
  rwa [moves, List.foldl_append]

theorem Describes.registers {waiting : List Source} (h : l.Describes c client seen ran)
    (hw : l.waiting = waiting) :
    (l.moves c (List.replicate waiting.length .register)).waiting = [] ∧
      (l.moves c (List.replicate waiting.length .register)).Describes c client
        (seen ++ waiting) ran := by
  induction waiting generalizing seen l with
  | nil => exact ⟨hw, by rwa [List.append_nil]⟩
  | cons s waiting ih =>
    obtain ⟨hwaiting, hnext⟩ := h.register hw
    obtain ⟨hnil, hall⟩ := ih hnext hwaiting
    rw [List.append_assoc] at hall
    exact ⟨hnil, hall⟩

theorem Describes.runs {n : Nat} (h : l.Describes c client seen [])
    (hn : n ≤ (firsts seen).length) :
    (l.moves c ((List.range n).map .run)).waiting = l.waiting ∧
      (l.moves c ((List.range n).map .run)).Describes c client seen ((firsts seen).take n) := by
  induction n with
  | zero => exact ⟨rfl, h⟩
  | succ n ih =>
    obtain ⟨hwaiting, hrun⟩ := ih (Nat.le_of_succ_le hn)
    have hs : (firsts seen)[n]? = some (firsts seen)[n] := List.getElem?_eq_getElem hn
    have hnew : (firsts seen)[n] ∉ (firsts seen).take n := by
      rw [List.mem_take_iff_getElem]
      rintro ⟨i, hi, heq⟩
      have := (List.Nodup.getElem_inj_iff (nodup_firsts seen)).1 heq
      omega
    obtain ⟨hwaiting', hrun'⟩ := hrun.run hs hnew
    rw [List.range_succ, List.map_append, List.map_singleton, moves_concat,
      List.take_succ_eq_append_getElem hn]
    exact ⟨hwaiting'.trans hwaiting, hrun'⟩

/-- The same run with the client's state seen through a map. -/
def mapClient {τ : Type} (f : σ → τ) (l : Loading σ) : Loading τ :=
  ⟨l.waiting, l.registry, f l.client, l.log⟩

theorem move_mapClient {τ : Type} {d : Client τ} {f : τ → σ}
    (hf : ∀ s x, c.fetch s (f x) = ((d.fetch s x).1, f (d.fetch s x).2)) (l : Loading τ)
    (m : Move) : (l.mapClient f).move c m = (l.move d m).mapClient f := by
  obtain ⟨waiting, registry, x, log⟩ := l
  cases m with
  | register => cases waiting <;> rfl
  | run slot =>
    simp only [Loading.move, mapClient]
    cases registry.tasks[slot]? with
    | none => rfl
    | some t =>
      obtain ⟨key, s, outcome⟩ := t
      cases outcome with
      | none => simp only [hf]
      | some o => rfl

theorem moves_mapClient {τ : Type} {d : Client τ} {f : τ → σ}
    (hf : ∀ s x, c.fetch s (f x) = ((d.fetch s x).1, f (d.fetch s x).2)) (l : Loading τ)
    (ms : List Move) : (l.mapClient f).moves c ms = (l.moves d ms).mapClient f := by
  induction ms using List.reverseRecOn with
  | nil => rfl
  | append_singleton ms m ih => rw [moves_concat, moves_concat, ih, move_mapClient hf]

/-- A record of the calls changes nothing else. -/
theorem moves_recorded (c : Client σ) (e : Expr) (client : σ) (ms : List Move) :
    (start e client).moves c ms =
      ((start e (client, [])).moves c.recorded ms).mapClient Prod.fst := by
  rw [← moves_mapClient]
  · rfl
  · rintro s ⟨x, requests⟩
    rw [Client.fetch_recorded]

/-- The order in which the tasks ran tells everything about a finished run. -/
theorem Finished.describes {e : Expr} {ms : List Move}
    (finished : ((start e client).moves c ms).Finished) :
    ∃ order, order.Perm e.firsts ∧
      ((start e client).moves c ms).Describes c client e.sources order ∧
      ((start e (client, [])).moves c.recorded ms).client =
        ((c.fetchAll client order).2, order.filterMap Source.request?) := by
  obtain ⟨seen, order, hseen, h⟩ := describes_moves c.recorded e (client, []) ms
  rw [moves_recorded] at finished ⊢
  obtain ⟨rfl, hperm⟩ := h.perm_of_finished hseen ⟨finished.registered, finished.ran⟩
  obtain ⟨indexed, tasks, nodup, subset, state, log⟩ := h
  rw [Client.fetchAll_recorded] at tasks state log
  exact ⟨order, hperm, ⟨indexed, tasks, nodup, subset, congrArg Prod.fst state, log⟩, state⟩

end Loading

end AccountGroups
