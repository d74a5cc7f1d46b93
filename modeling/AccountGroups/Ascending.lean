/-!
# Ascending lists as finite sets

A finite subset of a linear order is kept as its strictly ascending list. Each set has one such
list, so two sets with the same members are equal.
-/

namespace AccountGroups

structure Ascending (α : Type) [LT α] where
  toList : List α
  ascending : toList.Pairwise (· < ·)
  deriving DecidableEq

namespace Ascending

variable {α : Type} [LT α]

instance : Membership α (Ascending α) := ⟨fun s a => a ∈ s.toList⟩

theorem mem_iff {s : Ascending α} {a : α} : a ∈ s ↔ a ∈ s.toList := Iff.rfl

instance [DecidableEq α] (a : α) (s : Ascending α) : Decidable (a ∈ s) :=
  inferInstanceAs (Decidable (a ∈ s.toList))

def empty : Ascending α := ⟨[], .nil⟩

def isEmpty (s : Ascending α) : Bool := s.toList.isEmpty

def size (s : Ascending α) : Nat := s.toList.length

variable [DecidableLT α]

def place (a : α) : List α → List α
  | [] => [a]
  | b :: bs => if a < b then a :: b :: bs else if b < a then b :: place a bs else b :: bs

variable [LE α] [Std.IsLinearOrder α] [Std.LawfulOrderLT α]

@[simp] theorem mem_place {a x : α} {bs : List α} : x ∈ place a bs ↔ x = a ∨ x ∈ bs := by
  induction bs with
  | nil => simp [place]
  | cons b bs ih =>
    unfold place
    split
    · simp
    · split
      · simp only [List.mem_cons, ih]
        constructor
        · rintro (h | h | h) <;> simp [h]
        · rintro (h | h | h) <;> simp [h]
      · next hab hba =>
        have hab : a = b := Std.le_antisymm (Std.not_lt.1 hba) (Std.not_lt.1 hab)
        simp [hab]

theorem pairwise_place {a : α} {bs : List α} (h : bs.Pairwise (· < ·)) :
    (place a bs).Pairwise (· < ·) := by
  induction bs with
  | nil => simp [place]
  | cons b bs ih =>
    rw [List.pairwise_cons] at h
    unfold place
    split
    · next hab =>
      refine List.pairwise_cons.2 ⟨fun x hx => ?_, List.pairwise_cons.2 h⟩
      rcases List.mem_cons.1 hx with rfl | hx
      · exact hab
      · exact Std.lt_trans hab (h.1 x hx)
    · split
      · next hba =>
        refine List.pairwise_cons.2 ⟨fun x hx => ?_, ih h.2⟩
        rcases mem_place.1 hx with rfl | hx
        · exact hba
        · exact h.1 x hx
      · exact List.pairwise_cons.2 h

def insert (a : α) (s : Ascending α) : Ascending α := ⟨place a s.toList, pairwise_place s.ascending⟩

def ofList (as : List α) : Ascending α := as.foldr insert empty

def union (s t : Ascending α) : Ascending α := s.toList.foldr insert t

omit [DecidableLT α] [LE α] [Std.IsLinearOrder α] [Std.LawfulOrderLT α] in
variable [DecidableEq α] in
def inter (s t : Ascending α) : Ascending α :=
  ⟨s.toList.filter (· ∈ t.toList), s.ascending.filter _⟩

omit [DecidableLT α] [LE α] [Std.IsLinearOrder α] [Std.LawfulOrderLT α] in
variable [DecidableEq α] in
def diff (s t : Ascending α) : Ascending α :=
  ⟨s.toList.filter (· ∉ t.toList), s.ascending.filter _⟩

@[simp] theorem mem_insert {a x : α} {s : Ascending α} : x ∈ insert a s ↔ x = a ∨ x ∈ s := mem_place

@[simp] theorem mem_ofList {x : α} {as : List α} : x ∈ ofList as ↔ x ∈ as := by
  induction as with
  | nil => simp [ofList, empty, mem_iff]
  | cons a as ih => rw [ofList, List.foldr_cons, mem_insert, ← ofList, ih, List.mem_cons]

@[simp] theorem mem_union {x : α} {s t : Ascending α} : x ∈ s.union t ↔ x ∈ s ∨ x ∈ t := by
  obtain ⟨as, h⟩ := s
  show x ∈ as.foldr insert t ↔ x ∈ as ∨ x ∈ t
  clear h
  induction as with
  | nil => simp
  | cons a as ih => rw [List.foldr_cons, mem_insert, ih, List.mem_cons, or_assoc]

section Membership

omit [DecidableLT α] [LE α] [Std.IsLinearOrder α] [Std.LawfulOrderLT α]
variable [DecidableEq α]

@[simp] theorem mem_inter {x : α} {s t : Ascending α} : x ∈ s.inter t ↔ x ∈ s ∧ x ∈ t := by
  simp [inter, mem_iff]

@[simp] theorem mem_diff {x : α} {s t : Ascending α} : x ∈ s.diff t ↔ x ∈ s ∧ x ∉ t := by
  simp [diff, mem_iff]

end Membership

omit [DecidableLT α] in
private theorem eq_of_same_members {as bs : List α} (ha : as.Pairwise (· < ·))
    (hb : bs.Pairwise (· < ·)) (h : ∀ x, x ∈ as ↔ x ∈ bs) : as = bs := by
  induction as generalizing bs with
  | nil =>
    cases bs with
    | nil => rfl
    | cons b bs => exact absurd ((h b).2 (List.mem_cons_self ..)) (by simp)
  | cons a as ih =>
    cases bs with
    | nil => exact absurd ((h a).1 (List.mem_cons_self ..)) (by simp)
    | cons b bs =>
      rw [List.pairwise_cons] at ha hb
      have hab : a = b := by
        rcases List.mem_cons.1 ((h a).1 (List.mem_cons_self ..)) with e | hm
        · exact e
        · rcases List.mem_cons.1 ((h b).2 (List.mem_cons_self ..)) with e | hn
          · exact e.symm
          · exact absurd (Std.lt_trans (ha.1 b hn) (hb.1 a hm)) Std.lt_irrefl
      subst hab
      congr 1
      refine ih ha.2 hb.2 fun x => ⟨fun hx => ?_, fun hx => ?_⟩
      · rcases List.mem_cons.1 ((h x).1 (List.mem_cons_of_mem _ hx)) with rfl | hm
        · exact absurd (ha.1 x hx) Std.lt_irrefl
        · exact hm
      · rcases List.mem_cons.1 ((h x).2 (List.mem_cons_of_mem _ hx)) with rfl | hm
        · exact absurd (hb.1 x hx) Std.lt_irrefl
        · exact hm

omit [DecidableLT α] in
/-- Sets with the same members are equal. -/
theorem ext {s t : Ascending α} (h : ∀ x, x ∈ s ↔ x ∈ t) : s = t := by
  obtain ⟨as, ha⟩ := s
  obtain ⟨bs, hb⟩ := t
  have hab : as = bs := eq_of_same_members ha hb h
  subst hab
  rfl

end Ascending

end AccountGroups
