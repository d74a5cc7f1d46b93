import AccountGroups.Proofs.Composition
import AccountGroups.Proofs.GroupAlgebra
import AccountGroups.Proofs.Planning
import Mathlib.Data.Option.NAry

/-!
# Runs of composed texts

With fixed answers the group that a run gives is a function of the tree, and the group of a composed
text is made of the groups of its parts. So the laws of groups are laws of texts. The keys that are
fetched for a composed text are those of its parts, each of them once.
-/

namespace AccountGroups

namespace Expr

/-- The group of an expression whose sources have these lists, when all of them have one. -/
def groupOf (lists : Source → Option (List AccountId)) : Expr → Option Group
  | source s => (lists s).map .ofIds
  | inter left right => .map₂ (· ∩ ·) (left.groupOf lists) (right.groupOf lists)
  | union left right => .map₂ (· ∪ ·) (left.groupOf lists) (right.groupOf lists)
  | compl inner => (inner.groupOf lists).map (~~~·)

variable {lists lists' : Source → Option (List AccountId)} {e : Expr}

theorem toOption_evaluate (fetched : Fetched) (e : Expr) :
    (e.evaluate fetched).toOption = e.groupOf fun s => fetched.get? s.key := by
  induction e with
  | source s =>
    rw [evaluate, groupOf]
    cases fetched.get? s.key <;> rfl
  | inter left right ihl ihr | union left right ihl ihr =>
    rw [evaluate, groupOf, ← ihl, ← ihr]
    cases left.evaluate fetched with
    | error cause => rfl
    | ok a => cases right.evaluate fetched <;> rfl
  | compl inner ih =>
    rw [evaluate, groupOf, ← ih]
    cases inner.evaluate fetched <;> rfl

theorem groupOf_congr (h : ∀ s ∈ e.sources, lists s = lists' s) :
    e.groupOf lists = e.groupOf lists' := by
  induction e with
  | source s => rw [groupOf, groupOf, h s (by simp [sources])]
  | inter left right ihl ihr | union left right ihl ihr =>
    rw [groupOf, groupOf, ihl fun s hs => h s (by simp [sources, hs]),
      ihr fun s hs => h s (by simp [sources, hs])]
  | compl inner ih => rw [groupOf, groupOf, ih h]

theorem groupOf_eq_none {s : Source} (hs : s ∈ e.sources) (h : lists s = none) :
    e.groupOf lists = none := by
  induction e with
  | source t =>
    obtain rfl : s = t := by simpa [sources] using hs
    rw [groupOf, h]
    rfl
  | inter left right ihl ihr | union left right ihl ihr =>
    rw [sources, List.mem_append] at hs
    rcases hs with hs | hs
    · rw [groupOf, ihl hs, Option.map₂_none_left]
    · rw [groupOf, ihr hs, Option.map₂_none_right]
  | compl inner ih =>
    rw [groupOf, ih hs]
    rfl

variable (lists : Source → Option (List AccountId)) (a b : Expr)

theorem groupOf_inter_comm : (inter a b).groupOf lists = (inter b a).groupOf lists :=
  Option.map₂_comm inf_comm

theorem groupOf_union_comm : (union a b).groupOf lists = (union b a).groupOf lists :=
  Option.map₂_comm sup_comm

theorem groupOf_compl_compl : (compl (compl a)).groupOf lists = a.groupOf lists := by
  rw [groupOf, groupOf]
  cases a.groupOf lists with
  | none => rfl
  | some x => exact congrArg some (compl_compl x)

theorem groupOf_compl_inter :
    (compl (inter a b)).groupOf lists = (union (compl a) (compl b)).groupOf lists := by
  rw [groupOf, groupOf, groupOf, groupOf, groupOf]
  cases a.groupOf lists with
  | none => rfl
  | some x =>
    cases b.groupOf lists with
    | none => rfl
    | some y => exact congrArg some compl_inf

theorem groupOf_union_compl_self :
    (union a (compl a)).groupOf lists = (a.groupOf lists).map fun _ => .everybody := by
  rw [groupOf, groupOf]
  cases a.groupOf lists with
  | none => rfl
  | some x => exact congrArg some sup_compl_eq_top

theorem groupOf_inter_compl_self :
    (inter a (compl a)).groupOf lists = (a.groupOf lists).map fun _ => .nobody := by
  rw [groupOf, groupOf]
  cases a.groupOf lists with
  | none => rfl
  | some x => exact congrArg some inf_compl_eq_bot

theorem distinctKeys_inter : (inter a b).distinctKeys = a.distinctKeys.union b.distinctKeys :=
  Ascending.ext fun key => by simp [distinctKeys, sources]

theorem distinctKeys_union : (union a b).distinctKeys = a.distinctKeys.union b.distinctKeys :=
  distinctKeys_inter a b

end Expr

theorem Ascending.union_self (s : Ascending String) : s.union s = s :=
  Ascending.ext fun key => by simp

/-- The key of a fetch that the event tells the start of. -/
def Event.startedKey? : Event → Option String
  | fetchStarted key => some key
  | _ => none

namespace Outcome

variable {σ : Type}

/-- The group of a run that succeeded. -/
def group? (o : Outcome σ Result) : Option Group := (o.result.map Result.group).toOption

/-- The keys that were fetched, in order and each as often as it was fetched. -/
def startedKeys (o : Outcome σ Result) : List String := o.log.filterMap Event.startedKey?

def fetchedKeys (o : Outcome σ Result) : Ascending String := .ofList o.startedKeys

end Outcome

open Loading

variable {σ : Type} {c : Client σ} {client : σ}

/-- The ids of each source under a client with fixed answers. -/
def Client.listOf (c : Client σ) (client : σ) (s : Source) : Option (List AccountId) :=
  (c.fetch s client).1.toOption

theorem Expr.Canonical.group?_execute {e : Expr} (canonical : e.Canonical) (steady : c.Steady)
    (workers : Workers) {schedule : Schedule}
    (finished : ((start e client).moves c (schedule e)).Finished) :
    (e.execute c workers schedule client).group? = e.groupOf (c.listOf client) := by
  rcases canonical.load steady workers finished with
    ⟨fetched, hfetched, hget⟩ | ⟨failure, hfailure, s, hs, error, herror⟩
  · have hlists : ∀ s ∈ e.sources, fetched.get? s.key = c.listOf client s := by
      intro s hs
      obtain ⟨ids, hids, ho⟩ := hget s hs
      rw [hids, Client.listOf, ho]
      rfl
    rw [← groupOf_congr hlists, ← toOption_evaluate, Outcome.group?]
    cases hg : e.evaluate fetched with
    | error cause => simp only [Expr.execute, hfetched, hg]; rfl
    | ok g => rw [Expr.execute_of_load hfetched hg]; rfl
  · have hnone : c.listOf client s = none := by rw [Client.listOf, herror]; rfl
    rw [groupOf_eq_none hs hnone, Outcome.group?, Expr.execute_of_load_error hfailure]
    rfl

/-- The events of a run before, between and after those of the fetches tell of no fetch. -/
theorem Expr.startedKeys_execute (e : Expr) (c : Client σ) (workers : Workers)
    (schedule : Schedule) (client : σ) :
    (e.execute c workers schedule client).startedKeys =
      ((start e client).moves c (schedule e)).log.filterMap Event.startedKey? := by
  have hload : (load c workers schedule e client).log.filterMap Event.startedKey? =
      ((start e client).moves c (schedule e)).log.filterMap Event.startedKey? := rfl
  rw [← hload, Outcome.startedKeys, Expr.execute]
  cases (load c workers schedule e client).result with
  | error failure => rfl
  | ok fetched =>
    cases hg : e.evaluate fetched with
    | error cause => simp only [hg]
    | ok g => simp [hg, List.filterMap_append, Event.startedKey?]

@[simp] theorem startedKey?_fetchStarted (key : String) :
    (Event.fetchStarted key).startedKey? = some key := rfl

@[simp] theorem startedKey?_ofOutcome (key : String) (o : FetchOutcome) :
    (Event.ofOutcome key o).startedKey? = none := by
  cases o with
  | ok ids => rfl
  | error e => cases e <;> rfl

theorem startedKeys_events (made : List (Source × FetchOutcome)) :
    (made.flatMap events).filterMap Event.startedKey? = (made.map Prod.fst).map Source.key := by
  induction made with
  | nil => rfl
  | cons p made ih =>
    rw [List.flatMap_cons, List.filterMap_append, ih]
    simp [events]

/-- A run that is over has fetched the key of each source, and none of them twice. -/
theorem Expr.startedKeys_of_finished {e : Expr} (workers : Workers) {schedule : Schedule}
    (finished : ((start e client).moves c (schedule e)).Finished) :
    (e.execute c workers schedule client).startedKeys.Perm e.distinctKeys.toList := by
  obtain ⟨order, hperm, h, -⟩ := finished.describes
  have hkeys : (e.execute c workers schedule client).startedKeys = order.map Source.key := by
    rw [Expr.startedKeys_execute, h.log, startedKeys_events, Client.map_fst_fetchAll]
  have hnodup : (order.map Source.key).Nodup :=
    (hperm.map Source.key).nodup_iff.2 (nodup_keys_firsts _)
  rw [hkeys]
  refine (List.perm_ext_iff_of_nodup hnodup e.distinctKeys.nodup).2 fun key => ?_
  rw [(hperm.map Source.key).mem_iff, ← Ascending.mem_iff, Expr.distinctKeys, Ascending.mem_ofList]
  exact mem_keys_firsts

/-- With all sources registered first and the tasks run in their order, every run is over. -/
theorem finished_inOrder (c : Client σ) (e : Expr) (client : σ) :
    ((start e client).moves c (inOrder e)).Finished := by
  have hwaits : (start e client).waiting = e.sources := rfl
  obtain ⟨hregistered, hseen⟩ := (describes_start (c := c) e).registers hwaits
  rw [List.nil_append] at hseen
  obtain ⟨hwaiting, hran⟩ := hseen.runs (Nat.le_refl _)
  rw [List.take_length] at hran
  rw [moves, inOrder, List.foldl_append, size_distinctKeys]
  exact hran.finished (hwaiting.trans hregistered) (List.Subset.refl _)

/-- The outcome of a run of the text: all tasks have run, in some order and from some state of the
client. -/
def Completes (files : Files) (c : Client σ) (source : String) (o : Outcome σ Result) : Prop :=
  ∃ workers schedule client,
    (∀ e, Expr.read files source = .ok e → ((start e client).moves c (schedule e)).Finished) ∧
      o = execute files c workers schedule source client

variable {files : Files} {source : String} {e : Expr} {o : Outcome σ Result}

/-- The group of a text is the same in all its runs. -/
theorem Completes.of_read (h : Completes files c source o) (steady : c.Steady) (client : σ)
    (read : Expr.read files source = .ok e) :
    o.group? = e.groupOf (c.listOf client) ∧ o.startedKeys.Perm e.distinctKeys.toList := by
  obtain ⟨workers, schedule, client', finished, rfl⟩ := h
  have hlists : c.listOf client' = c.listOf client := by
    funext s
    rw [Client.listOf, Client.listOf, steady.fetch s client' client]
  have hexecute : execute files c workers schedule source client' =
      e.execute c workers schedule client' := by simp only [execute, read]
  have canonical := Expr.canonical_of_read read
  rw [hexecute, ← hlists]
  exact ⟨canonical.group?_execute steady workers (finished e read),
    Expr.startedKeys_of_finished workers (finished e read)⟩

theorem Completes.of_forms {d : Nat} (h : Completes files c source o) (steady : c.Steady)
    (client : σ) (forms : Expr.Forms files .expression source.toList e d)
    (within : Expr.WithinLimit files source) :
    o.group? = e.groupOf (c.listOf client) ∧ o.fetchedKeys = e.distinctKeys := by
  obtain ⟨hgroup, hkeys⟩ := h.of_read steady client (forms.read within)
  refine ⟨hgroup, Ascending.ext fun key => ?_⟩
  rw [Outcome.fetchedKeys, Ascending.mem_ofList, hkeys.mem_iff, Ascending.mem_iff]

/-- Texts that are expressions may be put together under operators, and what a run gives is put
together alike: the run succeeds when the runs of all parts do, the group is made of their groups,
and the keys fetched are theirs. So the laws of groups hold for texts. -/
theorem composed_runs (files : Files) (c : Client σ) (run : String → Outcome σ Result)
    (A B : String) (steady : c.Steady)
    (completes : ∀ source, Completes files c source (run source))
    (readA : ∃ a, Expr.read files A = .ok a) (readB : ∃ b, Expr.read files B = .ok b) :
    let group? source := (run source).group?
    let keys source := (run source).fetchedKeys
    let within := Expr.WithinLimit files
    (∀ T ∈ [s!"({A}) & ({B})", s!"{A} & ({B})"], within T →
      keys T = (keys A).union (keys B) ∧
      ∀ g, group? T = some g ↔ ∃ x y, group? A = some x ∧ group? B = some y ∧ x ∩ y = g) ∧
    (∀ T ∈ [s!"({A}) | ({B})", s!"{A} | ({B})"], within T →
      keys T = (keys A).union (keys B) ∧
      ∀ g, group? T = some g ↔ ∃ x y, group? A = some x ∧ group? B = some y ∧ x ∪ y = g) ∧
    (within s!"~({A})" → keys s!"~({A})" = keys A ∧
      ∀ g, group? s!"~({A})" = some g ↔ ∃ x, group? A = some x ∧ ~~~x = g) ∧
    (within s!"({A}) & ({B})" →
      group? s!"({A}) & ({B})" = group? s!"({B}) & ({A})") ∧
    (within s!"({A}) | ({B})" →
      group? s!"({A}) | ({B})" = group? s!"({B}) | ({A})") ∧
    (within s!"~~({A})" → group? s!"~~({A})" = group? A ∧ keys s!"~~({A})" = keys A) ∧
    (within s!"~(({A}) & ({B}))" →
      group? s!"~(({A}) & ({B}))" = group? s!"~({A}) | ~({B})" ∧
      keys s!"~(({A}) & ({B}))" = (keys A).union (keys B) ∧
      keys s!"~({A}) | ~({B})" = (keys A).union (keys B)) ∧
    (within s!"({A}) | ~({A})" →
      group? s!"({A}) | ~({A})" = (group? A).map (fun _ => .everybody) ∧
      keys s!"({A}) | ~({A})" = keys A) ∧
    (within s!"({A}) & ~({A})" →
      group? s!"({A}) & ~({A})" = (group? A).map (fun _ => .nobody) ∧
      keys s!"({A}) & ~({A})" = keys A) := by
  intro group? keys within
  obtain ⟨a, readA⟩ := readA
  obtain ⟨b, readB⟩ := readB
  obtain ⟨d, formsA⟩ := Expr.exists_forms_of_read readA
  obtain ⟨d', formsB⟩ := Expr.exists_forms_of_read readB
  obtain ⟨-, -, client, -, -⟩ := completes A
  let lists := c.listOf client
  have gives : ∀ {T e n}, Expr.Forms files .expression T.toList e n → within T →
      group? T = e.groupOf lists ∧ keys T = e.distinctKeys :=
    fun forms hT => (completes _).of_forms steady client forms hT
  obtain ⟨groupA, keysA⟩ := gives formsA (Expr.withinLimit_of_read readA)
  obtain ⟨groupB, keysB⟩ := gives formsB (Expr.withinLimit_of_read readB)
  have inter : ∀ {T n}, Expr.Forms files .expression T.toList (.inter a b) n → within T →
      keys T = (keys A).union (keys B) ∧
      ∀ g, group? T = some g ↔ ∃ x y, group? A = some x ∧ group? B = some y ∧ x ∩ y = g := by
    intro T n forms hT
    obtain ⟨hgroup, hkeys⟩ := gives forms hT
    rw [hkeys, keysA, keysB, hgroup, groupA, groupB]
    exact ⟨Expr.distinctKeys_inter a b, fun g => Option.map₂_eq_some_iff⟩
  have union : ∀ {T n}, Expr.Forms files .expression T.toList (.union a b) n → within T →
      keys T = (keys A).union (keys B) ∧
      ∀ g, group? T = some g ↔ ∃ x y, group? A = some x ∧ group? B = some y ∧ x ∪ y = g := by
    intro T n forms hT
    obtain ⟨hgroup, hkeys⟩ := gives forms hT
    rw [hkeys, keysA, keysB, hgroup, groupA, groupB]
    exact ⟨Expr.distinctKeys_union a b, fun g => Option.map₂_eq_some_iff⟩
  refine ⟨?_, ?_, ?_, ?_, ?_, ?_, ?_, ?_, ?_⟩
  · exact List.forall_mem_cons.2 ⟨inter (formsA.inter formsB),
      List.forall_mem_singleton.2 (inter (formsA.inter_left formsB))⟩
  · exact List.forall_mem_cons.2 ⟨union (formsA.union formsB),
      List.forall_mem_singleton.2 (union (formsA.union_left formsB))⟩
  · intro hT
    obtain ⟨hgroup, hkeys⟩ := gives formsA.compl hT
    rw [hkeys, keysA, hgroup, groupA]
    exact ⟨rfl, fun g => Option.map_eq_some_iff⟩
  · intro hT
    have hT' : within s!"({B}) & ({A})" :=
      (formsA.inter formsB).withinLimit_of_le (formsB.inter formsA) (Nat.max_comm ..).le hT
    rw [(gives (formsA.inter formsB) hT).1, (gives (formsB.inter formsA) hT').1]
    exact Expr.groupOf_inter_comm lists a b
  · intro hT
    have hT' : within s!"({B}) | ({A})" :=
      (formsA.union formsB).withinLimit_of_le (formsB.union formsA) (Nat.max_comm ..).le hT
    rw [(gives (formsA.union formsB) hT).1, (gives (formsB.union formsA) hT').1]
    exact Expr.groupOf_union_comm lists a b
  · intro hT
    obtain ⟨hgroup, hkeys⟩ := gives formsA.compl_compl hT
    rw [hkeys, keysA, hgroup, groupA]
    exact ⟨Expr.groupOf_compl_compl lists a, rfl⟩
  · intro hT
    have hT' : within s!"~({A}) | ~({B})" :=
      (formsA.compl_inter formsB).withinLimit_of_le (formsA.union_compl_compl formsB) (by omega) hT
    obtain ⟨hgroup, hkeys⟩ := gives (formsA.compl_inter formsB) hT
    obtain ⟨hgroup', hkeys'⟩ := gives (formsA.union_compl_compl formsB) hT'
    rw [hgroup, hgroup', hkeys, hkeys', keysA, keysB]
    exact ⟨Expr.groupOf_compl_inter lists a b, Expr.distinctKeys_inter a b,
      Expr.distinctKeys_union a b⟩
  · intro hT
    obtain ⟨hgroup, hkeys⟩ := gives (formsA.union_compl formsA) hT
    rw [hkeys, keysA, hgroup, groupA]
    exact ⟨Expr.groupOf_union_compl_self lists a,
      (Expr.distinctKeys_union a (.compl a)).trans (Ascending.union_self _)⟩
  · intro hT
    obtain ⟨hgroup, hkeys⟩ := gives (formsA.inter_compl formsA) hT
    rw [hkeys, keysA, hgroup, groupA]
    exact ⟨Expr.groupOf_inter_compl_self lists a,
      (Expr.distinctKeys_inter a (.compl a)).trans (Ascending.union_self _)⟩

theorem composed_runs_inOrder :
    let run source := execute .error .uniform {} inOrder source ()
    let A := "a.followers | c.following"
    let B := "b.following"
    Client.uniform.Steady ∧ (∀ source, Completes .error .uniform source (run source)) ∧
      (∃ a, Expr.read .error A = .ok a) ∧ (∃ b, Expr.read .error B = .ok b) ∧
      Expr.WithinLimit .error s!"{A} & ({B})" ∧
      (run s!"{A} & ({B})").fetchedKeys = (run A).fetchedKeys.union (run B).fetchedKeys ∧
      (run A).group? = some (.ofIds [1, 2, 3]) ∧ (run B).group? = some (.ofIds [2, 3]) ∧
      (run s!"{A} & ({B})").group? = some (.ofIds [2, 3]) := by
  intro run A B
  have steady : Client.uniform.Steady :=
    ⟨fun _ _ _ => rfl, fun _ _ _ => rfl, fun _ _ _ _ => rfl, fun _ _ _ => rfl, fun _ _ _ => rfl⟩
  have completes : ∀ source, Completes .error .uniform source (run source) :=
    fun source => ⟨{}, inOrder, (), fun e _ => finished_inOrder .uniform e (), rfl⟩
  have readA : Expr.read .error A = .ok (.union (.source (.followers "a"))
      (.source (.following "c"))) := by decide
  have readB : Expr.read .error B = .ok (.source (.following "b")) := by decide
  have read : Expr.read .error s!"{A} & ({B})" = .ok (.inter (.union (.source (.followers "a"))
      (.source (.following "c"))) (.source (.following "b"))) := by decide
  have groupA : (run A).group? = some (.ofIds [1, 2, 3]) := by decide
  have groupB : (run B).group? = some (.ofIds [2, 3]) := by decide
  have within := Expr.withinLimit_of_read read
  obtain ⟨hinter, -⟩ :=
    composed_runs .error .uniform run A B steady completes ⟨_, readA⟩ ⟨_, readB⟩
  obtain ⟨hkeys, hgroup⟩ := hinter s!"{A} & ({B})" (by simp) within
  exact ⟨steady, completes, ⟨_, readA⟩, ⟨_, readB⟩, within, hkeys, groupA, groupB,
    (hgroup _).2 ⟨_, _, groupA, groupB, by decide⟩⟩

end AccountGroups
