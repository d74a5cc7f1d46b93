import AccountGroups.Expr.Json
import AccountGroups.Proofs.Lowercase

/-!
# Expressions through JSON

Whichever shape of records is read, a tree that is written as JSON and read again has its handles
brought to lowercase. That changes nothing in a tree that the constructors build, and reading gives
no other trees, since lowercase text is its own lowercase form.
-/

namespace AccountGroups

open Text

namespace Source

/-- The constructors give the source. -/
inductive Built : Source → Prop
  | followersOf (handle : String) : Built (followersOf handle)
  | followingOf (handle : String) : Built (followingOf handle)
  | membersOf (owner list : String) : Built (membersOf owner list)
  | ofHandles (names : List String) : Built (ofHandles names)

/-- The handles of the source are their own lowercase forms. -/
def Settled : Source → Prop
  | followers handle | following handle => lowercase handle = handle
  | members owner _ => lowercase owner = owner
  | handles set => ∀ h ∈ set, lowercase h = h

/-- The source that a constructor gives for the same names. -/
def lowered : Source → Source
  | followers handle => followersOf handle
  | following handle => followingOf handle
  | members owner list => membersOf owner list
  | handles set => ofHandles set.toList

theorem built_lowered (s : Source) : s.lowered.Built := by
  cases s with
  | followers handle => exact .followersOf handle
  | following handle => exact .followingOf handle
  | members owner list => exact .membersOf owner list
  | handles set => exact .ofHandles set.toList

theorem Settled.lowered_eq {s : Source} (h : s.Settled) : s.lowered = s := by
  cases s with
  | followers handle => rw [lowered, followersOf, h]
  | following handle => rw [lowered, followingOf, h]
  | members owner list => rw [lowered, membersOf, h]
  | handles set => rw [lowered, ofHandles, HandleSet.ofHandles_toList h]

theorem Built.settled {s : Source} (h : s.Built) : s.Settled := by
  cases h with
  | followersOf handle => exact lowercase_lowercase handle
  | followingOf handle => exact lowercase_lowercase handle
  | membersOf owner list => exact lowercase_lowercase owner
  | ofHandles names =>
    intro x hx
    obtain ⟨w, -, rfl⟩ := HandleSet.mem_ofHandles.1 hx
    exact lowercase_lowercase w

theorem Canonical.settled {s : Source} (h : s.Canonical) : s.Settled := by
  cases s with
  | followers handle => exact h.lowercase_eq
  | following handle => exact h.lowercase_eq
  | members owner list => exact h.1.lowercase_eq
  | handles set => exact fun x hx => (h x hx).lowercase_eq

end Source

variable {arrays : Bool}

theorem Json.strings?_map_string (texts : List String) :
    strings? (texts.map .string) = some texts := by
  induction texts with
  | nil => rfl
  | cons text texts ih => simp [strings?, ih]

theorem Source.built_of_ofBody? {kind : String} {body : Json} {s : Source}
    (h : ofBody? arrays kind body = some s) : s.Built := by
  unfold ofBody? at h
  split at h
  · split at h <;> cases h
    exact .followersOf _
  split at h
  · split at h <;> cases h
    exact .followingOf _
  split at h
  · split at h <;> cases h
    exact .membersOf _ _
  split at h
  · split at h
    · obtain ⟨names, -, rfl⟩ := Option.map_eq_some_iff.1 h
      exact .ofHandles names
    · cases h
  · cases h

namespace Expr

/-- The constructors give the tree. -/
inductive Built : Expr → Prop
  | source {s : Source} (h : s.Built) : Built (source s)
  | inter {l r : Expr} (hl : Built l) (hr : Built r) : Built (inter l r)
  | union {l r : Expr} (hl : Built l) (hr : Built r) : Built (union l r)
  | compl {e : Expr} (h : Built e) : Built (compl e)

/-- All sources of the tree have handles in lowercase. -/
def Settled (e : Expr) : Prop := ∀ s ∈ e.sources, s.Settled

/-- The tree with all its sources lowered. -/
def lowered : Expr → Expr
  | source s => source s.lowered
  | inter l r => inter l.lowered r.lowered
  | union l r => union l.lowered r.lowered
  | compl e => compl e.lowered

theorem settled_source {s : Source} : (source s).Settled ↔ s.Settled := by
  simp [Settled, sources]

theorem settled_inter {l r : Expr} : (inter l r).Settled ↔ l.Settled ∧ r.Settled := by
  simp [Settled, sources, or_imp, forall_and]

theorem settled_union {l r : Expr} : (union l r).Settled ↔ l.Settled ∧ r.Settled := by
  simp [Settled, sources, or_imp, forall_and]

theorem Built.settled {e : Expr} (h : e.Built) : e.Settled := by
  induction h with
  | source h => exact settled_source.2 h.settled
  | inter _ _ ihl ihr => exact settled_inter.2 ⟨ihl, ihr⟩
  | union _ _ ihl ihr => exact settled_union.2 ⟨ihl, ihr⟩
  | compl _ ih => exact ih

theorem Settled.lowered_eq {e : Expr} (h : e.Settled) : e.lowered = e := by
  induction e with
  | source s => rw [lowered, (settled_source.1 h).lowered_eq]
  | inter l r ihl ihr => rw [lowered, ihl (settled_inter.1 h).1, ihr (settled_inter.1 h).2]
  | union l r ihl ihr => rw [lowered, ihl (settled_union.1 h).1, ihr (settled_union.1 h).2]
  | compl e ih => rw [lowered, ih h]

theorem built_lowered (e : Expr) : e.lowered.Built := by
  induction e with
  | source s => exact .source s.built_lowered
  | inter l r ihl ihr => exact .inter ihl ihr
  | union l r ihl ihr => exact .union ihl ihr
  | compl e ih => exact .compl ih

theorem built_iff_settled {e : Expr} : e.Built ↔ e.Settled :=
  ⟨Built.settled, fun h => h.lowered_eq ▸ e.built_lowered⟩

theorem built_of_decode? {v : Json} {e : Expr} (h : decode? arrays v = some e) : e.Built := by
  fun_induction decode? arrays v generalizing e with
  | case1 left right l r hr hl ihl ihr =>
    cases h
    exact .inter (ihl hl) (ihr hr)
  | case3 left right l r hr hl ihl ihr =>
    cases h
    exact .union (ihl hl) (ihr hr)
  | case5 inner ih =>
    obtain ⟨e, he, rfl⟩ := Option.map_eq_some_iff.1 h
    exact .compl (ih he)
  | case6 kind body =>
    obtain ⟨s, hs, rfl⟩ := Option.map_eq_some_iff.1 h
    exact .source (Source.built_of_ofBody? hs)
  | case2 | case4 | case7 => cases h

theorem decode?_source (s : Source) : decode? arrays s.toJson = some (source s.lowered) := by
  cases s with
  | followers | following | members => rfl
  | handles set =>
    simp [Source.toJson, decode?, Source.ofBody?, Json.strings, Json.strings?_map_string,
      Source.lowered]

theorem decode?_toJson (e : Expr) : decode? arrays e.toJson = some e.lowered := by
  induction e with
  | source s => exact decode?_source s
  | inter l r ihl ihr => rw [toJson, decode?, ihl, ihr, lowered]
  | union l r ihl ihr => rw [toJson, decode?, ihl, ihr, lowered]
  | compl e ih => rw [toJson, decode?, ih, Option.map_some, lowered]

/-- Reading what was written brings the handles of a tree to lowercase, and leaves as they are the
trees that the constructors build, which are those with all handles in lowercase. No other trees are
read, from the language or from JSON. -/
theorem json_roundtrip :
    (∀ e : Expr, e.Built ↔ e.Settled) ∧
    (∀ files source e, read files source = .ok e → e.Built) ∧
    (∀ arrays (e : Expr), decode? arrays e.toJson = some e.lowered) ∧
    (∀ arrays (e : Expr), e.Built ↔ decode? arrays e.toJson = some e) ∧
    ∀ arrays v e, decode? arrays v = some e →
      e.Built ∧ e.Settled ∧ ∀ arrays', decode? arrays' e.toJson = some e := by
  have returns : ∀ arrays (e : Expr), e.Built → decode? arrays e.toJson = some e := by
    intro arrays e h
    rw [decode?_toJson, h.settled.lowered_eq]
  refine ⟨fun e => built_iff_settled, fun files source e h => ?_, fun arrays => decode?_toJson,
    fun arrays e => ⟨returns arrays e, built_of_decode?⟩, fun arrays v e h => ?_⟩
  · exact built_iff_settled.2 fun s hs => (canonical_of_read h s hs).settled
  · have hb := built_of_decode? h
    exact ⟨hb, hb.settled, fun arrays' => returns arrays' e hb⟩

example : decode? true (.object [("ListMembers", .array [.string "Σ", .string "Team"])]) =
    some (.source (.members "σ" "Team")) := by
  decide

end Expr

end AccountGroups
