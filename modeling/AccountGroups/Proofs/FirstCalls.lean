import AccountGroups.Proofs.Registration

/-!
# First calls of the registry

The registry is called with keys in any order, as often as there is need, and each time with a
source. Only the first call with a key makes a task, for the source of that call, and the task keeps
its place from then on. So the index and the tasks tell which keys there have been, and every call
with a key comes back with the task of the first one.
-/

namespace AccountGroups

/-- A call of the registry. -/
structure Registration where
  key : String
  source : Source
  deriving DecidableEq

/-- The task that a call makes when it is the first with its key. -/
def Registration.task (call : Registration) : Task := ⟨call.key, call.source, none⟩

namespace Registry

/-- The registry after calls, made one after another. -/
def registerAll (r : Registry) (calls : List Registration) : Registry :=
  calls.foldl (fun r call => (r.register call.key call.source).registry) r

theorem registerAll_append (r : Registry) (before after : List Registration) :
    r.registerAll (before ++ after) = (r.registerAll before).registerAll after :=
  List.foldl_append

theorem registerAll_concat (r : Registry) (calls : List Registration) (call : Registration) :
    r.registerAll (calls ++ [call]) =
      ((r.registerAll calls).register call.key call.source).registry :=
  r.registerAll_append calls [call]

/-- A later registry has the tasks of an earlier one in their places, and finds them there. -/
structure Extends (r later : Registry) : Prop where
  tasks : r.tasks <+: later.tasks
  index : ∀ key slot, r.index.get? key = some slot → later.index.get? key = some slot

theorem Extends.refl (r : Registry) : r.Extends r := ⟨List.prefix_rfl, fun _ _ h => h⟩

theorem Extends.trans {r s t : Registry} (h : r.Extends s) (h' : s.Extends t) : r.Extends t where
  tasks := h.tasks.trans h'.tasks
  index key slot hk := h'.index key slot (h.index key slot hk)

theorem Extends.getElem?_tasks {r later : Registry} (h : r.Extends later) {slot : Nat} {t : Task}
    (ht : r.tasks[slot]? = some t) : later.tasks[slot]? = some t := by
  obtain ⟨more, hmore⟩ := h.tasks
  rw [← hmore, List.getElem?_append_left (List.getElem?_eq_some_iff.1 ht).1, ht]

theorem extends_register (r : Registry) (key : String) (source : Source) :
    r.Extends (r.register key source).registry := by
  rcases r.register_cases key source with ⟨slot, -, h⟩ | ⟨hnew, h⟩
  · rw [h]
    exact .refl r
  · rw [h]
    refine ⟨List.prefix_append _ _, fun k slot hk => ?_⟩
    have hne : key ≠ k := by
      rintro rfl
      rw [hnew] at hk
      cases hk
    rw [KeyMap.get?_insert, if_neg hne, hk]

theorem extends_registerAll (r : Registry) (calls : List Registration) :
    r.Extends (r.registerAll calls) := by
  induction calls generalizing r with
  | nil => exact .refl r
  | cons call calls ih => exact (r.extends_register call.key call.source).trans (ih _)

/-- A call comes back with the place that the index has for its key. -/
theorem get?_index_register (r : Registry) (key : String) (source : Source) :
    (r.register key source).registry.index.get? key = some (r.register key source).slot := by
  rcases r.register_cases key source with ⟨slot, hslot, h⟩ | ⟨-, h⟩
  · rw [h]
    exact hslot
  · rw [h, KeyMap.get?_insert, if_pos rfl]

theorem Indexed.nodup {r : Registry} (h : r.Indexed) : (r.tasks.map Task.key).Nodup := by
  rw [List.nodup_iff_getElem?_ne_getElem?]
  intro i j hij hj heq
  have hkey : (r.tasks.map Task.key)[j]? = some (r.tasks.map Task.key)[j] :=
    List.getElem?_eq_getElem hj
  have hi := (h _ i).2 (heq.trans hkey)
  rw [(h _ j).2 hkey] at hi
  exact Nat.ne_of_gt hij (Option.some.inj hi)

/-- The registry when these calls have been made of an empty one: its keys stand in the order of
their first calls, and its tasks are those of the first calls. -/
structure Represents (r : Registry) (calls : List Registration) : Prop where
  indexed : r.Indexed
  keys : r.tasks.map Task.key = (calls.map Registration.key).eraseDups
  first : ∀ t ∈ r.tasks, ∃ call, calls.find? (fun c => c.key == t.key) = some call ∧ t = call.task

theorem represents_empty : empty.Represents [] where
  indexed := indexed_empty
  keys := rfl
  first := by simp [empty]

namespace Represents

variable {r : Registry} {calls : List Registration}

theorem mem_keys (h : r.Represents calls) {key : String} :
    key ∈ r.tasks.map Task.key ↔ key ∈ calls.map Registration.key := by
  rw [h.keys, List.mem_eraseDups]

theorem exists_slot_iff (h : r.Represents calls) {key : String} :
    (∃ slot, r.index.get? key = some slot) ↔ key ∈ calls.map Registration.key := by
  rw [← h.mem_keys, List.mem_iff_getElem?]
  exact exists_congr fun slot => h.indexed key slot

theorem created_iff (h : r.Represents calls) (key : String) (source : Source) :
    (r.register key source).created = true ↔ key ∉ calls.map Registration.key := by
  rw [← h.exists_slot_iff]
  rcases r.register_cases key source with ⟨slot, hslot, hcall⟩ | ⟨hnew, hcall⟩
  · simp [hcall, hslot]
  · simp [hcall, hnew]

/-- Under a key stands the task of the first call with it. -/
theorem getElem?_tasks (h : r.Represents calls) {key : String} {slot : Nat}
    (hslot : r.index.get? key = some slot) :
    ∃ first, calls.find? (fun c => c.key == key) = some first ∧
      r.tasks[slot]? = some first.task := by
  have hkey := (h.indexed key slot).1 hslot
  rw [List.getElem?_map, Option.map_eq_some_iff] at hkey
  obtain ⟨t, ht, rfl⟩ := hkey
  obtain ⟨first, hfirst, rfl⟩ := h.first t (List.mem_of_getElem? ht)
  exact ⟨first, hfirst, ht⟩

/-- A call with a new key puts its task at the end, and any other call leaves all as it is. -/
theorem register (h : r.Represents calls) (call : Registration) :
    (r.register call.key call.source).registry.Represents (calls ++ [call]) := by
  have hearlier : ∀ t ∈ r.tasks, ∃ first,
      (calls ++ [call]).find? (fun c => c.key == t.key) = some first ∧ t = first.task := by
    intro t ht
    obtain ⟨first, hfirst, htask⟩ := h.first t ht
    exact ⟨first, by rw [List.find?_append, hfirst, Option.some_or], htask⟩
  by_cases hk : call.key ∈ calls.map Registration.key
  · rw [register_of_mem h.indexed (h.mem_keys.2 hk)]
    refine ⟨h.indexed, ?_, hearlier⟩
    rw [List.map_append, List.map_singleton, eraseDups_concat, if_pos hk, h.keys]
  · have hindexed := indexed_register h.indexed call.key call.source
    rw [register_of_not_mem h.indexed (mt h.mem_keys.1 hk)] at hindexed ⊢
    refine ⟨hindexed, ?_, fun t ht => ?_⟩
    · rw [List.map_append, List.map_append, List.map_singleton, List.map_singleton,
        eraseDups_concat, if_neg hk, h.keys]
    · rcases List.mem_append.1 ht with ht | ht
      · exact hearlier t ht
      · obtain rfl : t = call.task := List.mem_singleton.1 ht
        have hnew : calls.find? (fun c => c.key == call.key) = none := by
          rw [List.find?_eq_none]
          intro c hc heq
          exact hk (beq_iff_eq.1 heq ▸ List.mem_map_of_mem hc)
        refine ⟨call, ?_, rfl⟩
        rw [List.find?_append, Registration.task, hnew, Option.none_or, List.find?_cons,
          beq_self_eq_true]

end Represents

theorem represents_registerAll (calls : List Registration) :
    (empty.registerAll calls).Represents calls := by
  induction calls using List.reverseRecOn with
  | nil => exact represents_empty
  | append_singleton calls call ih =>
    rw [registerAll_concat]
    exact ih.register call

/-- Whatever the calls, the index has their keys and the place of each key's task, and the tasks
stand in the order of the first calls. A call makes a task when its key is new, it comes back with
the place of the task of the first call with its key, and no task made before leaves its place. -/
theorem registerAll_keeps_first (calls : List Registration) :
    let r := empty.registerAll calls
    let keys := calls.map Registration.key
    (∀ key, (∃ slot, r.index.get? key = some slot) ↔ key ∈ keys) ∧
    (∀ key slot, r.index.get? key = some slot ↔
      ∃ h : slot < r.tasks.length, r.tasks[slot].key = key) ∧
    (r.tasks.map Task.key).Nodup ∧ r.tasks.map Task.key = keys.eraseDups ∧
    (∀ before call after, calls = before ++ call :: after →
      let answer := (empty.registerAll before).register call.key call.source
      (answer.created = true ↔ call.key ∉ before.map Registration.key) ∧
      r.index.get? call.key = some answer.slot ∧
      ∃ first, calls.find? (fun c => c.key == call.key) = some first ∧
        answer.registry.tasks[answer.slot]? = some first.task ∧
        r.tasks[answer.slot]? = some first.task) ∧
    ∀ before after, calls = before ++ after → (empty.registerAll before).tasks <+: r.tasks := by
  intro r keys
  have h : r.Represents calls := represents_registerAll calls
  refine ⟨fun key => h.exists_slot_iff, ?slots, h.indexed.nodup, h.keys, ?call, ?later⟩
  case slots =>
    intro key slot
    rw [h.indexed key slot, List.getElem?_eq_some_iff]
    simp
  case call =>
    rintro before call after rfl answer
    have hbefore := represents_registerAll before
    have hlater : answer.registry.Extends r := by
      have hr : r = answer.registry.registerAll after := registerAll_append empty before _
      rw [hr]
      apply extends_registerAll
    have hslot : answer.registry.index.get? call.key = some answer.slot :=
      get?_index_register _ _ _
    obtain ⟨first, hfirst, htask⟩ := (hbefore.register call).getElem?_tasks hslot
    refine ⟨hbefore.created_iff _ _, hlater.index _ _ hslot, first, ?_, htask,
      hlater.getElem?_tasks htask⟩
    rw [List.append_cons, List.find?_append, hfirst, Option.some_or]
  case later =>
    rintro before after rfl
    have hr : r = (empty.registerAll before).registerAll after := registerAll_append empty _ _
    rw [hr]
    exact (extends_registerAll _ _).tasks

/-- The third call has the key of the first one and another source. -/
theorem registerAll_keeps_first_repeated :
    let before : List Registration := [⟨"a.followers", .followers "a"⟩, ⟨"a/b", .members "a" "b"⟩]
    let call : Registration := ⟨"a.followers", .following "c"⟩
    let after : List Registration := [⟨"d.following", .following "d"⟩]
    let r := empty.registerAll (before ++ call :: after)
    let answer := (empty.registerAll before).register call.key call.source
    r.tasks.map Task.key = ["a.followers", "a/b", "d.following"] ∧ answer.created = false ∧
      r.tasks[answer.slot]? = some ⟨"a.followers", .followers "a", none⟩ ∧
      (empty.registerAll before).tasks <+: r.tasks := by
  intro before call after r answer
  obtain ⟨-, -, -, hkeys, hcall, hlater⟩ := registerAll_keeps_first (before ++ call :: after)
  obtain ⟨hcreated, -, first, hfirst, -, htask⟩ := hcall before call after rfl
  obtain rfl : first = ⟨"a.followers", .followers "a"⟩ :=
    Option.some.inj (hfirst.symm.trans (by decide))
  refine ⟨hkeys.trans (by decide), ?_, htask, hlater before (call :: after) rfl⟩
  rw [← Bool.not_eq_true, hcreated]
  decide

end Registry

end AccountGroups
