import AccountGroups.Proofs.Calls
import Mathlib.Data.List.Nodup

/-!
# Registration of sources

The sources that make tasks are the first ones with their keys, the registry's index finds the task
of each key, and collecting reads the outcomes of the tasks in the order of registration.
-/

namespace AccountGroups

/-- The sources with a key that no source further left has. -/
def firsts (ss : List Source) : List Source := ss.eraseDupsBy fun s t => s.key == t.key

def Expr.firsts (e : Expr) : List Source := AccountGroups.firsts e.sources

theorem eraseDupsBy_loop_concat {α : Type} (r : α → α → Bool) (as seen : List α) (a : α) :
    List.eraseDupsBy.loop r (as ++ [a]) seen =
      if (List.eraseDupsBy.loop r as seen).any (r a) then List.eraseDupsBy.loop r as seen
      else List.eraseDupsBy.loop r as seen ++ [a] := by
  induction as generalizing seen with
  | nil =>
    simp only [List.nil_append, List.eraseDupsBy.loop, List.any_reverse]
    cases seen.any (r a) <;> simp
  | cons b as ih =>
    simp only [List.cons_append, List.eraseDupsBy.loop]
    by_cases hb : seen.any (r b) = true
    · simp only [hb]
      exact ih seen
    · rw [Bool.not_eq_true] at hb
      simp only [hb]
      exact ih (b :: seen)

theorem eraseDups_concat {α : Type} [DecidableEq α] (as : List α) (a : α) :
    (as ++ [a]).eraseDups = if a ∈ as then as.eraseDups else as.eraseDups ++ [a] := by
  rw [List.eraseDups_append]
  by_cases h : a ∈ as <;> simp [List.removeAll, List.eraseDups_cons, h]

theorem firsts_concat (ss : List Source) (s : Source) :
    firsts (ss ++ [s]) =
      if s.key ∈ (firsts ss).map Source.key then firsts ss else firsts ss ++ [s] := by
  have h : firsts (ss ++ [s]) =
      if (firsts ss).any (fun t => s.key == t.key) then firsts ss else firsts ss ++ [s] :=
    eraseDupsBy_loop_concat _ ss [] s
  have hany : (firsts ss).any (fun t => s.key == t.key) = true ↔
      s.key ∈ (firsts ss).map Source.key := by
    simp only [List.any_eq_true, beq_iff_eq, List.mem_map]
    exact exists_congr fun t => and_congr_right fun _ => eq_comm
  rw [h]
  by_cases hk : s.key ∈ (firsts ss).map Source.key
  · rw [if_pos (hany.2 hk), if_pos hk]
  · rw [if_neg (mt hany.1 hk), if_neg hk]

theorem mem_keys_firsts {ss : List Source} {key : String} :
    key ∈ (firsts ss).map Source.key ↔ key ∈ ss.map Source.key := by
  induction ss using List.reverseRecOn generalizing key with
  | nil => rfl
  | append_singleton ss s ih =>
    rw [firsts_concat, List.map_append, List.mem_append, List.map_singleton, List.mem_singleton]
    split
    · next h =>
      rw [ih]
      exact ⟨.inl, fun hk => hk.elim id fun he => he ▸ ih.1 h⟩
    · rw [List.map_append, List.mem_append, ih, List.map_singleton, List.mem_singleton]

theorem nodup_keys_firsts (ss : List Source) : ((firsts ss).map Source.key).Nodup := by
  induction ss using List.reverseRecOn with
  | nil => exact List.nodup_nil
  | append_singleton ss s ih =>
    rw [firsts_concat]
    split
    · exact ih
    · next h =>
      rw [List.map_append, List.map_singleton, List.nodup_append]
      refine ⟨ih, by simp, ?_⟩
      rintro key hk _ he rfl
      rw [List.mem_singleton] at he
      exact h (he ▸ hk)

theorem nodup_firsts (ss : List Source) : (firsts ss).Nodup :=
  List.Pairwise.of_map Source.key (fun _ _ hne he => hne (congrArg Source.key he))
    (nodup_keys_firsts ss)

theorem mem_of_mem_firsts {ss : List Source} {s : Source} (h : s ∈ firsts ss) : s ∈ ss := by
  induction ss using List.reverseRecOn with
  | nil => exact h
  | append_singleton ss t ih =>
    rw [firsts_concat] at h
    split at h
    · exact List.mem_append_left _ (ih h)
    · rcases List.mem_append.1 h with h | h
      · exact List.mem_append_left _ (ih h)
      · exact List.mem_append_right _ h

/-- The source that stands for a key is the leftmost one with that key. -/
theorem find?_firsts (ss : List Source) (key : String) :
    (firsts ss).find? (fun s => s.key == key) = ss.find? fun s => s.key == key := by
  induction ss using List.reverseRecOn with
  | nil => rfl
  | append_singleton ss s ih =>
    rw [firsts_concat, List.find?_append, ← ih]
    split
    · next hs =>
      by_cases hk : s.key = key
      · subst hk
        obtain ⟨t, ht, he⟩ := List.mem_map.1 hs
        have hfound : ((firsts ss).find? fun u => u.key == s.key).isSome :=
          List.find?_isSome.2 ⟨t, ht, beq_iff_eq.2 he⟩
        rw [Option.or_of_isSome hfound]
      · simp [hk]
    · rw [List.find?_append]

theorem firsts_prefix (as bs : List Source) : firsts as <+: firsts (as ++ bs) := by
  induction bs using List.reverseRecOn with
  | nil => exact ⟨[], by rw [List.append_nil, List.append_nil]⟩
  | append_singleton bs s ih =>
    rw [← List.append_assoc, firsts_concat]
    split
    · exact ih
    · exact ih.trans (List.prefix_append _ _)

theorem KeyMap.mem_keys {α : Type} {m : KeyMap α} {key : String} :
    key ∈ m.keys ↔ ∃ a, m.get? key = some a := by
  simp only [keys, get?, List.mem_map, Option.map_eq_some_iff]
  constructor
  · rintro ⟨e, he, rfl⟩
    obtain ⟨f, hf⟩ := Option.isSome_iff_exists.1
      (List.find?_isSome (p := fun f : String × α => f.1 == e.1) |>.2 ⟨e, he, beq_self_eq_true _⟩)
    exact ⟨f.2, f, hf, rfl⟩
  · rintro ⟨a, e, he, rfl⟩
    have hkey : (e.1 == key) = true := List.find?_some (p := fun f : String × α => f.1 == key) he
    exact ⟨e, List.mem_of_find?_eq_some he, beq_iff_eq.1 hkey⟩

namespace Registry

/-- The index finds the task of each key, and nothing else. -/
def Indexed (r : Registry) : Prop :=
  ∀ key slot, r.index.get? key = some slot ↔ (r.tasks.map Task.key)[slot]? = some key

theorem indexed_empty : empty.Indexed := by
  intro key slot
  simp [empty]

/-- A call finds the task of its key, or puts a new one behind the others. -/
theorem register_cases (r : Registry) (key : String) (source : Source) :
    (∃ slot, r.index.get? key = some slot ∧ r.register key source = ⟨r, slot, false⟩) ∨
      (r.index.get? key = none ∧ r.register key source =
        ⟨⟨r.index.insert key r.tasks.length, r.tasks ++ [⟨key, source, none⟩]⟩,
          r.tasks.length, true⟩) := by
  unfold register
  cases r.index.get? key with
  | some slot => exact .inl ⟨slot, rfl, rfl⟩
  | none => exact .inr ⟨rfl, rfl⟩

theorem register_of_mem {r : Registry} (h : r.Indexed) {key : String}
    (hk : key ∈ r.tasks.map Task.key) (source : Source) :
    (r.register key source).registry = r := by
  obtain ⟨slot, hs⟩ := List.mem_iff_getElem?.1 hk
  rcases r.register_cases key source with ⟨_, -, hcall⟩ | ⟨hnew, -⟩
  · rw [hcall]
  · rw [(h key slot).2 hs] at hnew
    cases hnew

theorem register_of_not_mem {r : Registry} (h : r.Indexed) {key : String}
    (hk : key ∉ r.tasks.map Task.key) (source : Source) :
    (r.register key source).registry =
      ⟨r.index.insert key r.tasks.length, r.tasks ++ [⟨key, source, none⟩]⟩ := by
  rcases r.register_cases key source with ⟨slot, hslot, -⟩ | ⟨-, hcall⟩
  · exact (hk (List.mem_iff_getElem?.2 ⟨slot, (h key slot).1 hslot⟩)).elim
  · rw [hcall]

theorem getElem?_concat_eq_some {α : Type} {xs : List α} {x y : α} {i : Nat} :
    (xs ++ [x])[i]? = some y ↔ xs[i]? = some y ∨ (i = xs.length ∧ x = y) := by
  rcases Nat.lt_trichotomy i xs.length with hlt | rfl | hgt
  · rw [List.getElem?_append_left hlt]
    simp [Nat.ne_of_lt hlt]
  · rw [List.getElem?_concat_length]
    simp
  · have hlong : (xs ++ [x]).length ≤ i := by
      rw [List.length_append, List.length_singleton]
      omega
    rw [List.getElem?_eq_none hlong, List.getElem?_eq_none (Nat.le_of_lt hgt)]
    simp [Nat.ne_of_gt hgt]

theorem indexed_register {r : Registry} (h : r.Indexed) (key : String) (source : Source) :
    (r.register key source).registry.Indexed := by
  by_cases hk : key ∈ r.tasks.map Task.key
  · rwa [register_of_mem h hk]
  rw [register_of_not_mem h hk]
  intro k slot
  rw [KeyMap.get?_insert, List.map_append, List.map_singleton, getElem?_concat_eq_some,
    List.length_map]
  split
  · next he =>
    subst he
    have hnew : (r.tasks.map Task.key)[slot]? ≠ some key :=
      fun hs => hk (List.mem_iff_getElem?.2 ⟨slot, hs⟩)
    rw [or_iff_right hnew, Option.some_inj, eq_comm]
    exact (and_iff_left rfl).symm
  · next hne =>
    rw [h k slot]
    simp [hne]

theorem keys_setOutcome (r : Registry) (slot : Nat) (outcome : FetchOutcome) :
    (r.setOutcome slot outcome).tasks.map Task.key = r.tasks.map Task.key := by
  apply List.ext_getElem?
  intro i
  rw [setOutcome, List.getElem?_map, List.getElem?_map, List.getElem?_modify]
  cases r.tasks[i]? with
  | none => rfl
  | some t => by_cases h : slot = i <;> simp [h]

theorem indexed_setOutcome {r : Registry} (h : r.Indexed) (slot : Nat) (outcome : FetchOutcome) :
    (r.setOutcome slot outcome).Indexed := by
  intro key i
  rw [keys_setOutcome]
  exact h key i

theorem collect_ok {ts : List Task} (nodup : (ts.map Task.key).Nodup)
    (hok : ∀ t ∈ ts, ∃ ids, t.outcome = some (.ok ids)) (fetched : Fetched) :
    ∃ all, collect fetched ts = .ok all ∧ ∀ key ids, all.get? key = some ids ↔
      (∃ t ∈ ts, t.key = key ∧ t.outcome = some (.ok ids)) ∨
        (key ∉ ts.map Task.key ∧ fetched.get? key = some ids) := by
  induction ts generalizing fetched with
  | nil => exact ⟨fetched, rfl, by simp⟩
  | cons t ts ih =>
    obtain ⟨ids, ht⟩ := hok t (by simp)
    rw [List.map_cons, List.nodup_cons] at nodup
    obtain ⟨all, hall, hget⟩ := ih nodup.2 (fun u hu => hok u (by simp [hu]))
      (fetched.insert t.key ids)
    refine ⟨all, by rw [collect, ht]; exact hall, ?_⟩
    intro key found
    rw [hget, KeyMap.get?_insert]
    by_cases hk : t.key = key
    · subst hk
      have hno : ¬ ∃ u ∈ ts, u.key = t.key ∧ u.outcome = some (.ok found) := by
        rintro ⟨u, hu, he, -⟩
        exact nodup.1 (he ▸ List.mem_map_of_mem hu)
      simp [hno, nodup.1, ht]
    · simp [hk, Ne.symm hk]

theorem collect_error {before after : List Task} {t : Task} {error : GraphError}
    (hok : ∀ u ∈ before, ∃ ids, u.outcome = some (.ok ids)) (ht : t.outcome = some (.error error))
    (fetched : Fetched) : collect fetched (before ++ t :: after) = .error (.fetch t.key error) := by
  induction before generalizing fetched with
  | nil => rw [List.nil_append, collect, ht]
  | cons u before ih =>
    obtain ⟨ids, hu⟩ := hok u (by simp)
    rw [List.cons_append, collect, hu]
    exact ih (fun v hv => hok v (by simp [hv])) _

theorem results_ok {r : Registry} (nodup : (r.tasks.map Task.key).Nodup)
    (hok : ∀ t ∈ r.tasks, ∃ ids, t.outcome = some (.ok ids)) :
    ∃ all, r.results = .ok all ∧ ∀ key ids, all.get? key = some ids ↔
      ∃ t ∈ r.tasks, t.key = key ∧ t.outcome = some (.ok ids) := by
  obtain ⟨all, hall, hget⟩ := collect_ok nodup hok .empty
  exact ⟨all, hall, fun key ids => by simp [hget]⟩

/-- The failure of the key that stands leftmost among the failed ones is reported. -/
theorem results_error {r : Registry} {before after : List Source} {s : Source} {error : GraphError}
    (keys : r.tasks.map Task.key = (firsts (before ++ s :: after)).map Source.key)
    (hok : ∀ u ∈ before, ∃ t ∈ r.tasks, t.key = u.key ∧ ∃ ids, t.outcome = some (.ok ids))
    (hs : ∃ t ∈ r.tasks, t.key = s.key ∧ t.outcome = some (.error error)) :
    r.results = .error (.fetch s.key error) := by
  have nodup : (r.tasks.map Task.key).Nodup := keys ▸ nodup_keys_firsts _
  obtain ⟨t, ht, hts, herror⟩ := hs
  have hnew : s.key ∉ (firsts before).map Source.key := by
    rw [mem_keys_firsts]
    intro hs
    obtain ⟨u, hu, hus⟩ := List.mem_map.1 hs
    obtain ⟨t', ht', htu, ids, hids⟩ := hok u hu
    rw [List.inj_on_of_nodup_map nodup ht' ht (htu.trans (hus.trans hts.symm)), herror] at hids
    cases hids
  obtain ⟨more, hmore⟩ := firsts_prefix (before ++ [s]) after
  rw [firsts_concat, if_neg hnew, List.append_assoc, List.append_assoc] at hmore
  rw [← List.singleton_append, ← hmore, List.map_append] at keys
  obtain ⟨ts, us, htasks, hts', hus⟩ := List.map_eq_append_iff.1 keys
  obtain ⟨t', us, rfl, ht', -⟩ := List.map_eq_cons_iff.1 hus
  have hmem : t' ∈ r.tasks := by
    rw [htasks]
    exact List.mem_append_right _ List.mem_cons_self
  obtain rfl : t = t' := List.inj_on_of_nodup_map nodup ht hmem (hts.trans ht'.symm)
  rw [results, htasks, ← ht']
  refine collect_error ?_ herror _
  intro u hu
  have huk : u.key ∈ before.map Source.key := by
    rw [← mem_keys_firsts, ← hts']
    exact List.mem_map_of_mem hu
  obtain ⟨v, hv, hvu⟩ := List.mem_map.1 huk
  obtain ⟨t', ht', htv, hids⟩ := hok v hv
  have humem : u ∈ r.tasks := by
    rw [htasks]
    exact List.mem_append_left _ hu
  rwa [← List.inj_on_of_nodup_map nodup ht' humem (htv.trans hvu)]

end Registry

end AccountGroups
