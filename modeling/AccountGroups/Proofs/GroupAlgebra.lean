import AccountGroups.Group
import Mathlib.Order.BooleanAlgebra.Basic

/-!
# The Boolean algebra of groups

A group is told by the accounts that it contains together with its kind, and the kind behaves like
one more account, which no list names: intersection, union and complement treat it as they treat
every account. So groups are a part of the functions into truth values that is closed under the
operations, and the laws of these functions are laws of groups, as equations of both kinds.
-/

namespace AccountGroups.Group

/-- Whether an account is in the group; `none` is an account beyond all lists. -/
def covers (g : Group) : Option AccountId → Bool
  | some id => g.contains id
  | none => g.isComplement

@[simp] theorem covers_some (g : Group) (id : AccountId) : g.covers (some id) = g.contains id := rfl

@[simp] theorem covers_none (g : Group) : g.covers none = g.isComplement := rfl

theorem covers_inter (a b : Group) : (a.inter b).covers = a.covers ⊓ b.covers := by
  funext p
  cases p <;> simp

theorem covers_union (a b : Group) : (a.union b).covers = a.covers ⊔ b.covers := by
  funext p
  cases p <;> simp

theorem covers_compl (a : Group) : a.compl.covers = a.coversᶜ := by
  funext p
  cases p <;> simp

theorem covers_everybody : everybody.covers = ⊤ := by
  funext p
  cases p <;> rfl

theorem covers_nobody : nobody.covers = ⊥ := by
  funext p
  cases p <;> rfl

/-- Groups of one kind with the same accounts are equal. -/
theorem eq_iff {a b : Group} :
    a = b ↔ a.isComplement = b.isComplement ∧ ∀ id, a.contains id = b.contains id := by
  constructor
  · rintro rfl
    exact ⟨rfl, fun _ => rfl⟩
  · rintro ⟨hkind, hids⟩
    cases a with
    | only ids =>
      cases b with
      | only ids' =>
        simp only [contains, decide_eq_decide] at hids
        rw [Ascending.ext hids]
      | allBut => cases hkind
    | allBut ids =>
      cases b with
      | only => cases hkind
      | allBut ids' =>
        simp only [contains, decide_eq_decide, not_iff_not] at hids
        rw [Ascending.ext hids]

theorem covers_injective : Function.Injective covers := by
  intro a b h
  exact eq_iff.2 ⟨congrFun h none, fun id => congrFun h (some id)⟩

instance : LE Group := ⟨fun a b => a.covers ≤ b.covers⟩

instance : LT Group := ⟨fun a b => a.covers < b.covers⟩

instance : Max Group := ⟨union⟩

instance : Min Group := ⟨inter⟩

instance : Top Group := ⟨everybody⟩

instance : Bot Group := ⟨nobody⟩

instance : Compl Group := ⟨compl⟩

instance : SDiff Group := ⟨fun a b => a.inter b.compl⟩

instance : HImp Group := ⟨fun a b => b.union a.compl⟩

instance : BooleanAlgebra Group :=
  covers_injective.booleanAlgebra covers Iff.rfl Iff.rfl covers_union covers_inter covers_everybody
    covers_nobody covers_compl
    (fun a b => by rw [sdiff_eq, ← covers_compl]; exact covers_inter a b.compl)
    (fun a b => by rw [himp_eq, ← covers_compl]; exact covers_union b a.compl)

theorem listed_isEmpty_iff {g : Group} : g.listed.isEmpty = true ↔ g.listed = .empty := by
  rw [Ascending.isEmpty, List.isEmpty_iff]
  exact ⟨fun h => Ascending.ext fun x => by rw [Ascending.mem_iff, h]; rfl, fun h => by rw [h]; rfl⟩

theorem isEverybody_iff {g : Group} : g.isEverybody = true ↔ g = everybody := by
  rw [isEverybody, Bool.and_eq_true, listed_isEmpty_iff]
  cases g <;> simp [isComplement, listed, everybody]

theorem isNobody_iff {g : Group} : g.isNobody = true ↔ g = nobody := by
  rw [isNobody, Bool.and_eq_true, listed_isEmpty_iff]
  cases g <;> simp [isComplement, listed, nobody]

/-- Groups of both kinds form a Boolean algebra under equality, in which two groups are equal when
they have one kind and the same accounts. -/
theorem boolean_laws (a b c : Group) :
    (∀ id, (a.inter b).contains id = (a.contains id && b.contains id) ∧
      (a.union b).contains id = (a.contains id || b.contains id) ∧
      a.compl.contains id = !a.contains id) ∧
    (a.inter b).isComplement = (a.isComplement && b.isComplement) ∧
    (a.union b).isComplement = (a.isComplement || b.isComplement) ∧
    a.compl.isComplement = !a.isComplement ∧
    ((a == b) = true ↔ a = b) ∧
    (a = b ↔ a.isComplement = b.isComplement ∧ ∀ id, a.contains id = b.contains id) ∧
    a.inter b = b.inter a ∧ a.union b = b.union a ∧
    (a.inter b).inter c = a.inter (b.inter c) ∧ (a.union b).union c = a.union (b.union c) ∧
    a.inter a = a ∧ a.union a = a ∧
    a.inter (a.union b) = a ∧ a.union (a.inter b) = a ∧
    a.inter (b.union c) = (a.inter b).union (a.inter c) ∧
    a.union (b.inter c) = (a.union b).inter (a.union c) ∧
    (a.inter b).compl = a.compl.union b.compl ∧ (a.union b).compl = a.compl.inter b.compl ∧
    a.compl.compl = a ∧ a.union a.compl = everybody ∧ a.inter a.compl = nobody ∧
    everybody.compl = nobody ∧ nobody.compl = everybody ∧
    a.inter everybody = a ∧ a.union nobody = a ∧
    a.inter nobody = nobody ∧ a.union everybody = everybody ∧
    (a.isEverybody = true ↔ a = everybody) ∧ (a.isNobody = true ↔ a = nobody) ∧
    a ∩ b = a.inter b ∧ a ∪ b = a.union b ∧ ~~~a = a.compl :=
  ⟨fun _ => ⟨contains_inter, contains_union, contains_compl⟩, isComplement_inter,
    isComplement_union, isComplement_compl, beq_iff_eq, eq_iff, inf_comm a b, sup_comm a b,
    inf_assoc a b c, sup_assoc a b c, inf_idem a, sup_idem a, inf_sup_self, sup_inf_self,
    inf_sup_left a b c, sup_inf_left a b c, compl_inf, compl_sup, compl_compl a, sup_compl_eq_top,
    inf_compl_eq_bot, compl_top, compl_bot, inf_top_eq a, sup_bot_eq a, inf_bot_eq a, sup_top_eq a,
    isEverybody_iff, isNobody_iff, rfl, rfl, rfl⟩

end AccountGroups.Group
