/-!
# Maps from text keys

A finite map is kept as its list of entries in ascending order of the keys, so two maps with the
same value at every key are equal. Putting an entry replaces the value that its key had.
-/

namespace AccountGroups

structure KeyMap (α : Type) where
  entries : List (String × α)
  ascending : entries.Pairwise (fun e f => e.1 < f.1)
  deriving DecidableEq

namespace KeyMap

variable {α : Type}

def empty : KeyMap α := ⟨[], .nil⟩

def size (m : KeyMap α) : Nat := m.entries.length

def isEmpty (m : KeyMap α) : Bool := m.entries.isEmpty

def keys (m : KeyMap α) : List String := m.entries.map (·.1)

def get? (m : KeyMap α) (key : String) : Option α :=
  (m.entries.find? fun e => e.1 == key).map (·.2)

def contains (m : KeyMap α) (key : String) : Bool := m.entries.any fun e => e.1 == key

def put (key : String) (value : α) : List (String × α) → List (String × α)
  | [] => [(key, value)]
  | e :: es =>
    if key < e.1 then (key, value) :: e :: es
    else if e.1 < key then e :: put key value es
    else (key, value) :: es

theorem fst_mem_put {key : String} {value : α} {es : List (String × α)} {e : String × α}
    (h : e ∈ put key value es) : e.1 = key ∨ e ∈ es := by
  induction es with
  | nil => simp [put] at h; simp [h]
  | cons d ds ih =>
    unfold put at h
    split at h
    · rcases List.mem_cons.1 h with rfl | h
      · exact .inl rfl
      · exact .inr h
    · split at h
      · rcases List.mem_cons.1 h with rfl | h
        · exact .inr (List.mem_cons_self ..)
        · exact (ih h).imp_right (List.mem_cons_of_mem _)
      · rcases List.mem_cons.1 h with rfl | h
        · exact .inl rfl
        · exact .inr (List.mem_cons_of_mem _ h)

theorem pairwise_put {key : String} {value : α} {es : List (String × α)}
    (h : es.Pairwise (fun e f => e.1 < f.1)) :
    (put key value es).Pairwise (fun e f => e.1 < f.1) := by
  induction es with
  | nil => simp [put]
  | cons d ds ih =>
    rw [List.pairwise_cons] at h
    unfold put
    split
    · next hk =>
      refine List.pairwise_cons.2 ⟨fun e he => ?_, List.pairwise_cons.2 h⟩
      rcases List.mem_cons.1 he with rfl | he
      · exact hk
      · exact String.lt_trans hk (h.1 e he)
    · next hk =>
      split
      · next hd =>
        refine List.pairwise_cons.2 ⟨fun e he => ?_, ih h.2⟩
        rcases fst_mem_put he with he | he
        · exact he ▸ hd
        · exact h.1 e he
      · next hd =>
        have hkd : key = d.1 := String.le_antisymm (String.not_lt.1 hd) (String.not_lt.1 hk)
        exact List.pairwise_cons.2 ⟨fun e he => hkd ▸ h.1 e he, h.2⟩

def insert (m : KeyMap α) (key : String) (value : α) : KeyMap α :=
  ⟨put key value m.entries, pairwise_put m.ascending⟩

private theorem find?_put {key k : String} {value : α} {es : List (String × α)}
    (h : es.Pairwise (fun e f => e.1 < f.1)) :
    ((put key value es).find? fun e => e.1 == k).map (·.2) =
      if key = k then some value else (es.find? fun e => e.1 == k).map (·.2) := by
  induction es with
  | nil => by_cases hk : key = k <;> simp [put, hk]
  | cons d ds ih =>
    rw [List.pairwise_cons] at h
    unfold put
    split
    · by_cases hk : key = k <;> simp [hk]
    · next hlt =>
      split
      · next hd =>
        rw [List.find?_cons, List.find?_cons]
        by_cases hdk : d.1 = k
        · have hk : key ≠ k := fun e => String.lt_irrefl _ (e ▸ hdk ▸ hd)
          simp [hdk, hk]
        · simp only [beq_eq_false_iff_ne.2 hdk]
          exact ih h.2
      · next hd =>
        have hkd : d.1 = key := String.le_antisymm (String.not_lt.1 hlt) (String.not_lt.1 hd)
        by_cases hk : key = k
        · simp [hk]
        · simp [hk, hkd]

@[simp] theorem get?_insert {m : KeyMap α} {key k : String} {value : α} :
    (m.insert key value).get? k = if key = k then some value else m.get? k :=
  find?_put m.ascending

@[simp] theorem get?_empty {k : String} : (empty : KeyMap α).get? k = none := rfl

/-- Of two entries with one key the later counts. -/
def ofList (es : List (String × α)) : KeyMap α := es.foldl (fun m e => m.insert e.1 e.2) empty

end KeyMap

end AccountGroups
