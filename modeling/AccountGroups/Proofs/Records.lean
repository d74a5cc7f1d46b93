import AccountGroups.Proofs.Writing
import Mathlib.Data.List.Perm.Basic

/-!
# Records in any order

The members of an object carry no order. Values that differ in the order of members alone are read
as one list, one record, or one map up to the order of its entries. What every field of a record
keeps is kept by reading a whole record, in either of its shapes.
-/

namespace AccountGroups.Json

mutual

/-- The values differ in the order of members of objects alone. -/
inductive Reordered : Json → Json → Prop
  | null : Reordered null null
  | bool (value : Bool) : Reordered (bool value) (bool value)
  | natural (n : Nat) : Reordered (natural n) (natural n)
  | numeral (text : List Char) : Reordered (numeral text) (numeral text)
  | string (text : String) : Reordered (string text) (string text)
  | array {is js : List Json} (items : ReorderedItems is js) : Reordered (array is) (array js)
  | object {ms ns ps : List (String × Json)} (perm : ms.Perm ns) (members : ReorderedMembers ns ps) :
    Reordered (object ms) (object ps)

inductive ReorderedItems : List Json → List Json → Prop
  | nil : ReorderedItems [] []
  | cons {i j : Json} {is js : List Json} (item : Reordered i j) (items : ReorderedItems is js) :
    ReorderedItems (i :: is) (j :: js)

inductive ReorderedMembers : List (String × Json) → List (String × Json) → Prop
  | nil : ReorderedMembers [] []
  | cons (key : String) {i j : Json} {ms ns : List (String × Json)} (value : Reordered i j)
    (members : ReorderedMembers ms ns) : ReorderedMembers ((key, i) :: ms) ((key, j) :: ns)

end

mutual

theorem Reordered.refl : ∀ j : Json, Reordered j j
  | .null => .null
  | .bool b => .bool b
  | .natural n => .natural n
  | .numeral text => .numeral text
  | .string text => .string text
  | .array items => .array (ReorderedItems.refl items)
  | .object members => .object (.refl members) (ReorderedMembers.refl members)

theorem ReorderedItems.refl : ∀ items : List Json, ReorderedItems items items
  | [] => .nil
  | item :: items => .cons (Reordered.refl item) (ReorderedItems.refl items)

theorem ReorderedMembers.refl : ∀ members : List (String × Json),
    ReorderedMembers members members
  | [] => .nil
  | (key, value) :: members => .cons key (Reordered.refl value) (ReorderedMembers.refl members)

end

theorem plainItems_iff {items : List Json} : PlainItems items ↔ ∀ j ∈ items, j.Plain := by
  induction items with
  | nil => simp [PlainItems]
  | cons j items ih => rw [PlainItems, ih, List.forall_mem_cons]

theorem plainMembers_iff {members : List (String × Json)} :
    PlainMembers members ↔ ∀ m ∈ members, m.2.Plain := by
  induction members with
  | nil => simp [PlainMembers]
  | cons m members ih => rw [PlainMembers, ih, List.forall_mem_cons]

mutual

theorem Reordered.plain : ∀ {j k : Json}, Reordered j k → j.Plain → k.Plain
  | _, _, .null, h | _, _, .bool _, h | _, _, .natural _, h | _, _, .numeral _, h
  | _, _, .string _, h => h
  | _, _, .array items, h => items.plain h
  | _, _, .object perm members, h => by
    have hmembers := plainMembers_iff.1 h
    exact members.plain (plainMembers_iff.2 fun m hm => hmembers m (perm.mem_iff.2 hm))

theorem ReorderedItems.plain : ∀ {is js : List Json}, ReorderedItems is js → PlainItems is →
    PlainItems js
  | _, _, .nil, _ => trivial
  | _, _, .cons item items, h => ⟨item.plain h.1, items.plain h.2⟩

theorem ReorderedMembers.plain : ∀ {ms ns : List (String × Json)}, ReorderedMembers ms ns →
    PlainMembers ms → PlainMembers ns
  | _, _, .nil, _ => trivial
  | _, _, .cons _ value members, h => ⟨value.plain h.1, members.plain h.2⟩

end

/-- The value is read as `a`, whatever the order of members. -/
def ReadAs {α : Type} (j : Json) (read : Draft → Except Fault α) (a : α) : Prop :=
  ∀ k, j.Reordered k → read k.draft = .ok a

section Lists

variable {α : Type} {read : Draft → Except Fault α} {write : α → Json}

theorem readItems_reordered {as : List α} (h : ∀ a ∈ as, (write a).ReadAs read a)
    {js : List Json} (hjs : ReorderedItems (as.map write) js) :
    Draft.readItems read (draftItems js) = .ok as := by
  induction as generalizing js with
  | nil =>
    cases hjs
    rfl
  | cons a as ih =>
    rw [List.map_cons] at hjs
    cases hjs with
    | cons item items =>
      have hitem := h a List.mem_cons_self _ item
      have hitems := ih (fun b hb => h b (List.mem_cons_of_mem _ hb)) items
      simp only [draftItems, Draft.readItems, hitem, hitems]
      rfl

theorem readAs_list {as : List α} (h : ∀ a ∈ as, (write a).ReadAs read a) :
    (array (as.map write)).ReadAs (fun d => d.list? read) as := by
  intro k hk
  cases hk with
  | array items =>
    simp only [draft, Draft.list?, readItems_reordered h items]
    rfl

theorem readMembers_reordered {es : List (String × α)}
    (h : ∀ e ∈ es, (write e.2).ReadAs read e.2) {ps : List (String × Json)}
    (hps : ReorderedMembers (es.map fun e => (e.1, write e.2)) ps) :
    Draft.readMembers read (draftMembers ps) = .ok es := by
  induction es generalizing ps with
  | nil =>
    cases hps
    rfl
  | cons e es ih =>
    rw [List.map_cons] at hps
    cases hps with
    | cons _ value members =>
      have hvalue := h e List.mem_cons_self _ value
      have hmembers := ih (fun f hf => h f (List.mem_cons_of_mem _ hf)) members
      simp only [draftMembers, Draft.readMembers, hvalue, hmembers]
      rfl

/-- A map is read up to the order of its entries. -/
theorem exists_map?_eq_ok {es : List (String × α)} (h : ∀ e ∈ es, (write e.2).ReadAs read e.2)
    {k : Json} (hk : (object (es.map fun e => (e.1, write e.2))).Reordered k) :
    ∃ fs, fs.Perm es ∧ k.draft.map? read = .ok fs := by
  cases hk with
  | object perm members =>
    have hcomp := List.eq_map_comp_perm fun e : String × α => (e.1, write e.2)
    obtain ⟨fs, rfl, hfs⟩ := (congrFun (congrFun hcomp _) _).mpr perm.symm
    have hall : ∀ e ∈ fs, (write e.2).ReadAs read e.2 := fun e he => h e (hfs.mem_iff.1 he)
    refine ⟨fs, hfs, ?_⟩
    simp only [draft, Draft.map?, readMembers_reordered hall members]
    rfl

end Lists

section Fields

variable {σ : Type} {fields : List (Draft.Field σ)}

/-- The member is read by a field of its name into a record of which the fields `seen` are known. -/
def Fills (fields : List (Draft.Field σ)) (known : List String → σ) (m : String × Json) : Prop :=
  ∃ field, fields.find? (·.name == m.1) = some field ∧
    ∀ k, m.2.Reordered k → ∀ seen, field.read k.draft (known seen) = .ok (known (m.1 :: seen))

theorem fills_of_readAs {α : Type} {known : List String → σ} {name : String} {j : Json}
    {read : Draft → Except Fault α} {set : α → σ → σ} {a : α}
    (hfind : fields.find? (·.name == name) = some ⟨name, fun d r => (read d).map (set · r)⟩)
    (hread : j.ReadAs read a) (hset : ∀ seen, set a (known seen) = known (name :: seen)) :
    Fills fields known (name, j) := by
  refine ⟨_, hfind, fun k hk seen => ?_⟩
  simp only [hread k hk, Except.map, hset]

theorem fillMembers_reordered {known : List String → σ} {ns ps : List (String × Json)}
    (hps : ReorderedMembers ns ps) (hfills : ∀ n ∈ ns, Fills fields known n)
    (hnodup : (ns.map (·.1)).Nodup) {seen : List String} (hseen : ∀ n ∈ ns, n.1 ∉ seen) :
    Draft.fillMembers fields none seen (draftMembers ps) (known seen) =
      .ok (known ((ns.map (·.1)).reverse ++ seen)) := by
  induction ns generalizing ps seen with
  | nil =>
    cases hps
    rfl
  | cons n ns ih =>
    cases hps with
    | cons key value members =>
      obtain ⟨field, hfind, hread⟩ := hfills _ List.mem_cons_self
      obtain ⟨hkey, hkeys⟩ := List.nodup_cons.1 hnodup
      have hfresh : seen.contains key = false := by
        simpa using hseen _ List.mem_cons_self
      have hnext : ∀ m ∈ ns, m.1 ∉ key :: seen := fun m hm hmem => by
        rcases List.mem_cons.1 hmem with rfl | hmem
        · exact hkey (List.mem_map.2 ⟨m, hm, rfl⟩)
        · exact hseen m (List.mem_cons_of_mem _ hm) hmem
      have hrest := ih members (fun m hm => hfills m (List.mem_cons_of_mem _ hm)) hkeys hnext
      simp only [draftMembers, Draft.fillMembers, hfind, hfresh, Bool.false_eq_true, if_false,
        hread _ value seen, hrest, List.map_cons, List.reverse_cons, List.append_assoc,
        List.singleton_append]

/-- A record is read from members that each fill a field of it. -/
theorem readAs_record {known : List String → σ} {ms : List (String × Json)} {record : σ}
    (hnodup : (ms.map (·.1)).Nodup) (hfills : ∀ m ∈ ms, Fills fields known m)
    (hknown : ∀ seen, (∀ name ∈ ms.map (·.1), name ∈ seen) → known seen = record) :
    (object ms).ReadAs (fun d => d.record? fields (known [])) record := by
  intro k hk
  cases hk with
  | @object _ ns ps perm members =>
    have hnames : (ms.map (·.1)).Perm (ns.map (·.1)) := perm.map _
    have hfill := fillMembers_reordered members (fun n hn => hfills n (perm.mem_iff.2 hn))
      (hnames.nodup_iff.1 hnodup) fun n _ => List.not_mem_nil
    have hall : ∀ name ∈ ms.map (·.1), name ∈ (ns.map (·.1)).reverse := fun name hname =>
      List.mem_reverse.2 (hnames.mem_iff.1 hname)
    rw [List.append_nil, hknown _ hall] at hfill
    exact hfill

/-- Reading any of the fields keeps `p`. -/
def Keeps (fields : List (Draft.Field σ)) (p : σ → Prop) : Prop :=
  ∀ field ∈ fields, ∀ d record next, field.read d record = .ok next → p record → p next

variable {p : σ → Prop} {ending : Option Defect}

theorem of_map_eq_ok {α β : Type} {f : α → β} {r : Except Fault α} {b : β}
    (h : r.map f = .ok b) : ∃ a, r = .ok a ∧ b = f a := by
  cases r with
  | error e => cases h
  | ok a => exact ⟨a, rfl, (Except.ok.inj h).symm⟩

theorem of_closed {record next : σ} (h : Draft.closed record ending = .ok next) : next = record := by
  cases ending with
  | none => exact (Except.ok.inj h).symm
  | some d => cases h

theorem fillItems_keeps (hkeeps : Keeps fields p) {items : List Draft} {record result : σ}
    (hrecord : p record) (h : Draft.fillItems ending fields items record = .ok result) :
    p result := by
  induction fields generalizing items record with
  | nil =>
    cases items with
    | nil => exact of_closed h ▸ hrecord
    | cons item items => cases h
  | cons field fields ih =>
    cases items with
    | nil => exact of_closed h ▸ hrecord
    | cons item items =>
      rw [Draft.fillItems] at h
      split at h
      · cases h
      · next next hnext =>
        have hstep := hkeeps field List.mem_cons_self item record next hnext hrecord
        exact ih (fun f hf => hkeeps f (List.mem_cons_of_mem _ hf)) hstep h

theorem fillMembers_keeps (hkeeps : Keeps fields p) {members : List (Option String × Draft)}
    {seen : List String} {record result : σ} (hrecord : p record)
    (h : Draft.fillMembers fields ending seen members record = .ok result) : p result := by
  induction members generalizing seen record with
  | nil => exact of_closed h ▸ hrecord
  | cons m members ih =>
    obtain ⟨key, d⟩ := m
    cases key with
    | none => cases h
    | some key =>
      rw [Draft.fillMembers] at h
      split at h
      · split at h
        · cases h
        · exact ih hrecord h
      · next field hfind =>
        split at h
        · cases h
        split at h
        · cases h
        · next next hnext =>
          exact ih (hkeeps field (List.mem_of_find?_eq_some hfind) d record next hnext hrecord) h

/-- What every field keeps holds of a record that is read, whatever its shape. -/
theorem record?_keeps (hkeeps : Keeps fields p) {start result : σ} (hstart : p start) {d : Draft}
    (h : d.record? fields start = .ok result) : p result := by
  unfold Draft.record? at h
  split at h
  · exact fillItems_keeps hkeeps hstart h
  · exact fillMembers_keeps hkeeps hstart h
  · cases h

end Fields

end AccountGroups.Json
