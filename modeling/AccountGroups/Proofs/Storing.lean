import AccountGroups.Proofs.Instants
import AccountGroups.Proofs.Records
import AccountGroups.Snapshot.Json

/-!
# Stored snapshots

A snapshot that is read from a text has counted no requests, and its window ends at an instant of
the calendar. Such a snapshot is written as a text from which it is read again, in whatever order
the members of the text stand.
-/

namespace AccountGroups

open Json (Draft Fault ReadAs Fills)

namespace KeyMap

variable {α : Type}

theorem perm_put {key : String} {value : α} {es : List (String × α)}
    (h : ∀ e ∈ es, e.1 ≠ key) : (put key value es).Perm ((key, value) :: es) := by
  induction es with
  | nil => exact .refl _
  | cons e es ih =>
    rw [put]
    split
    · exact .refl _
    split
    · exact ((ih fun f hf => h f (List.mem_cons_of_mem _ hf)).cons e).trans (.swap ..)
    · next hkey he =>
      exact absurd (String.le_antisymm (String.not_lt.1 hkey) (String.not_lt.1 he))
        (h e List.mem_cons_self)

/-- Entries with keys of their own are all kept. -/
theorem perm_foldl_insert {es : List (String × α)} {m : KeyMap α}
    (h : (m.entries ++ es).Pairwise (fun e f => e.1 ≠ f.1)) :
    (es.foldl (fun m e => m.insert e.1 e.2) m).entries.Perm (m.entries ++ es) := by
  induction es generalizing m with
  | nil => rw [List.append_nil, List.foldl_nil]
  | cons e es ih =>
    have hput : (m.insert e.1 e.2).entries.Perm (e :: m.entries) := by
      refine perm_put fun f hf => ?_
      exact (List.pairwise_append.1 h).2.2 f hf e List.mem_cons_self
    have hperm : ((m.insert e.1 e.2).entries ++ es).Perm (m.entries ++ e :: es) :=
      (hput.append_right es).trans List.perm_middle.symm
    exact (ih ((hperm.pairwise_iff fun hne => hne.symm).2 h)).trans hperm

/-- A map is the map of its entries, in whatever order they are put. -/
theorem ofList_of_perm {es : List (String × α)} {m : KeyMap α} (h : es.Perm m.entries) :
    ofList es = m := by
  have hkeys : es.Pairwise (fun e f => e.1 ≠ f.1) :=
    (h.pairwise_iff fun hne => hne.symm).2 (m.ascending.imp fun hlt => String.ne_of_lt hlt)
  have hperm : (ofList es).entries.Perm m.entries := (perm_foldl_insert hkeys).trans h
  have hentries : (ofList es).entries = m.entries := by
    refine hperm.eq_of_pairwise (fun e f _ _ hlt hgt => ?_) (ofList es).ascending m.ascending
    exact absurd hgt (String.lt_asymm hlt)
  cases m
  exact mk.injEq .. ▸ hentries

end KeyMap

theorem readAs_id (id : AccountId) : (idJson id).ReadAs id? id := by
  intro k hk
  rw [idJson] at hk
  cases hk
  simp only [id?, Json.draft, Draft.natural?, UInt64.toNat_lt_size, if_true, Except.map,
    UInt64.ofNat_toNat]

theorem readAs_word (w : UInt32) : (Json.natural w.toNat).ReadAs word? w := by
  intro k hk
  cases hk
  simp only [word?, Json.draft, Draft.natural?, UInt32.toNat_lt_size, if_true, Except.map,
    UInt32.ofNat_toNat]

theorem readAs_string (s : String) : (Json.string s).ReadAs Draft.string? s := by
  intro k hk
  cases hk
  rfl

theorem readAs_instant {i : Instant} (h : i.Valid) :
    (Json.string i.rfc3339).ReadAs instant? i := by
  intro k hk
  cases hk
  simp only [instant?, Json.draft, Draft.string?, Instant.ofText?_rfc3339 h]

theorem valid_of_instant? {d : Draft} {i : Instant} (h : instant? d = .ok i) : i.Valid := by
  unfold instant? at h
  split at h
  · cases h
  split at h
  · next hi =>
    cases h
    exact Instant.valid_of_ofText? hi
  · cases h

namespace User

/-- What is known of a user after the fields `seen`. -/
def Fields.known (u : User) (seen : List String) : Fields :=
  ⟨if "id" ∈ seen then some u.id else none, if "handle" ∈ seen then some u.handle else none⟩

theorem readAs (u : User) : u.toJson.ReadAs ofDraft u := by
  have hrecord : u.toJson.ReadAs (fun d => d.record? fields (Fields.known u []))
      ⟨some u.id, some u.handle⟩ := by
    refine Json.readAs_record (by decide : ["handle", "id"].Nodup) ?_ fun seen hseen => ?_
    · simp only [List.forall_mem_cons]
      refine ⟨?_, ?_, fun m hm => nomatch hm⟩
      · exact Json.fills_of_readAs rfl (readAs_string u.handle) fun seen => by simp [Fields.known]
      · exact Json.fills_of_readAs rfl (readAs_id u.id) fun seen => by simp [Fields.known]
    · simp only [List.map_cons, List.forall_mem_cons] at hseen
      simp [Fields.known, hseen]
  intro k hk
  have hread := hrecord k hk
  simp only [Fields.known, List.not_mem_nil, if_false] at hread
  rw [ofDraft, hread]

end User

namespace RateLimit

/-- What is known of a window after the fields `seen`. -/
def Fields.known (w : RateLimit) (seen : List String) : Fields :=
  ⟨if "limit" ∈ seen then some w.limit else none,
    if "remaining" ∈ seen then some w.remaining else none,
    if "reset_at" ∈ seen then some w.resetAt else none⟩

theorem readAs {w : RateLimit} (h : w.resetAt.Valid) : w.toJson.ReadAs ofDraft w := by
  have hrecord : w.toJson.ReadAs (fun d => d.record? fields (Fields.known w []))
      ⟨some w.limit, some w.remaining, some w.resetAt⟩ := by
    refine Json.readAs_record (by decide : ["limit", "remaining", "reset_at"].Nodup) ?_
      fun seen hseen => ?_
    · simp only [List.forall_mem_cons]
      refine ⟨?_, ?_, ?_, fun m hm => nomatch hm⟩
      · exact Json.fills_of_readAs rfl (readAs_word w.limit) fun seen => by simp [Fields.known]
      · exact Json.fills_of_readAs rfl (readAs_word w.remaining) fun seen => by
          simp [Fields.known]
      · exact Json.fills_of_readAs rfl (readAs_instant h) fun seen => by simp [Fields.known]
    · simp only [List.map_cons, List.forall_mem_cons] at hseen
      simp [Fields.known, hseen]
  intro k hk
  have hread := hrecord k hk
  simp only [Fields.known, List.not_mem_nil, if_false] at hread
  rw [ofDraft, hread]

theorem valid_of_ofDraft {d : Draft} {w : RateLimit} (h : ofDraft d = .ok w) :
    w.resetAt.Valid := by
  have hkeeps : Json.Keeps fields fun r => ∀ i, r.resetAt = some i → i.Valid := by
    intro field hfield d r next hnext hr
    simp only [fields, List.mem_cons, List.not_mem_nil, or_false] at hfield
    rcases hfield with rfl | rfl | rfl
    · obtain ⟨limit, -, rfl⟩ := Json.of_map_eq_ok hnext
      exact hr
    · obtain ⟨remaining, -, rfl⟩ := Json.of_map_eq_ok hnext
      exact hr
    · obtain ⟨resetAt, hresetAt, rfl⟩ := Json.of_map_eq_ok hnext
      intro i hi
      cases hi
      exact valid_of_instant? hresetAt
  have hstart : ∀ i, (none : Option Instant) = some i → i.Valid := fun i hi => nomatch hi
  unfold ofDraft at h
  split at h
  case h_2 limit remaining resetAt hrecord =>
    cases h
    exact Json.record?_keeps hkeeps hstart hrecord resetAt rfl
  all_goals cases h

end RateLimit

namespace Snapshot

/-- The snapshots that texts give: no request is counted, and a window ends at an instant of the
calendar. -/
structure Fresh (s : Snapshot) : Prop where
  requests : s.requests = 0
  resetAt : ∀ w, s.rateLimit = some w → w.resetAt.Valid

/-- What is known of a snapshot after the fields `seen`. -/
def known (s : Snapshot) (seen : List String) : Snapshot where
  users := if "users" ∈ seen then s.users else []
  followers := if "followers" ∈ seen then s.followers else .empty
  following := if "following" ∈ seen then s.following else .empty
  lists := if "lists" ∈ seen then s.lists else .empty
  rateLimit := if "rate_limit" ∈ seen then s.rateLimit else none
  requests := 0

theorem readAs_table (table : KeyMap (List AccountId)) : (tableJson table).ReadAs table? table := by
  intro k hk
  have hids : ∀ e ∈ table.entries, (idsJson e.2).ReadAs (fun d => d.list? id?) e.2 :=
    fun e _ => Json.readAs_list fun id _ => readAs_id id
  obtain ⟨es, hperm, hread⟩ := Json.exists_map?_eq_ok hids hk
  rw [table?, hread, Except.map, KeyMap.ofList_of_perm hperm]

theorem valid_of_option? {d : Draft} {w : RateLimit}
    (h : d.option? RateLimit.ofDraft = .ok (some w)) : w.resetAt.Valid := by
  unfold Draft.option? at h
  split at h
  · cases h
  · obtain ⟨v, hv, heq⟩ := Json.of_map_eq_ok h
    cases heq
    exact RateLimit.valid_of_ofDraft hv

theorem readAs_rateLimit {s : Snapshot} (h : s.Fresh) :
    (match s.rateLimit with
      | some w => w.toJson
      | none => .null).ReadAs (fun d => d.option? RateLimit.ofDraft) s.rateLimit := by
  intro k hk
  cases hlimit : s.rateLimit with
  | none =>
    rw [hlimit] at hk
    cases hk
    rfl
  | some w =>
    rw [hlimit] at hk
    have hread := RateLimit.readAs (h.resetAt w hlimit) k hk
    cases hk
    simp only [Json.draft, Draft.option?] at hread ⊢
    rw [hread, Except.map]

theorem Fresh.readAs {s : Snapshot} (h : s.Fresh) : s.toJson.ReadAs ofDraft s := by
  have hrecord : s.toJson.ReadAs (fun d => d.record? fields (s.known [])) s := by
    refine Json.readAs_record
      (by decide : ["followers", "following", "lists", "rate_limit", "users"].Nodup) ?_
      fun seen hseen => ?_
    · simp only [List.forall_mem_cons]
      refine ⟨?_, ?_, ?_, ?_, ?_, fun m hm => nomatch hm⟩
      · exact Json.fills_of_readAs rfl (readAs_table s.followers) fun seen => by simp [known]
      · exact Json.fills_of_readAs rfl (readAs_table s.following) fun seen => by simp [known]
      · exact Json.fills_of_readAs rfl (readAs_table s.lists) fun seen => by simp [known]
      · exact Json.fills_of_readAs rfl (readAs_rateLimit h) fun seen => by simp [known]
      · exact Json.fills_of_readAs rfl (Json.readAs_list fun u _ => u.readAs) fun seen => by
          simp [known]
    · simp only [List.map_cons, List.forall_mem_cons] at hseen
      simp [known, hseen, ← h.requests]
  exact hrecord

theorem fresh_empty : empty.Fresh where
  requests := rfl
  resetAt := fun w hw => nomatch show (none : Option RateLimit) = some w from hw

theorem fresh_of_ofDraft {d : Draft} {s : Snapshot} (h : ofDraft d = .ok s) : s.Fresh := by
  have hkeeps : Json.Keeps fields Fresh := by
    intro field hfield d s next hnext hs
    simp only [fields, List.mem_cons, List.not_mem_nil, or_false] at hfield
    rcases hfield with rfl | rfl | rfl | rfl | rfl
    iterate 4
      obtain ⟨v, -, rfl⟩ := Json.of_map_eq_ok hnext
      exact ⟨hs.requests, hs.resetAt⟩
    · obtain ⟨limit, hlimit, rfl⟩ := Json.of_map_eq_ok hnext
      refine ⟨hs.requests, fun w hw => ?_⟩
      obtain rfl : limit = some w := hw
      exact valid_of_option? hlimit
  exact Json.record?_keeps hkeeps fresh_empty h

theorem plain_tableJson (table : KeyMap (List AccountId)) : (tableJson table).Plain := by
  refine Json.plainMembers_iff.2 fun m hm => ?_
  obtain ⟨e, -, rfl⟩ := List.mem_map.1 hm
  exact Json.plainItems_iff.2 fun j hj => by
    obtain ⟨id, -, rfl⟩ := List.mem_map.1 hj
    exact id.toNat_lt_size

theorem plain_toJson (s : Snapshot) : s.toJson.Plain := by
  have hlimit : (match s.rateLimit with
      | some w => w.toJson
      | none => .null).Plain := by
    cases s.rateLimit with
    | none => trivial
    | some w =>
      have hsize : UInt32.size < UInt64.size := by decide
      exact ⟨lt_trans w.limit.toNat_lt_size hsize, lt_trans w.remaining.toNat_lt_size hsize,
        trivial, trivial⟩
  have husers : (Json.array (s.users.map User.toJson)).Plain := by
    refine Json.plainItems_iff.2 fun j hj => ?_
    obtain ⟨u, -, rfl⟩ := List.mem_map.1 hj
    exact ⟨trivial, u.id.toNat_lt_size, trivial⟩
  exact ⟨plain_tableJson _, plain_tableJson _, plain_tableJson _, hlimit, husers, trivial⟩

theorem fresh_of_read {doc : Json.Document} {s : Snapshot} (h : doc.read ofDraft = .ok s) :
    s.Fresh := by
  unfold Json.Document.read at h
  split at h
  · cases h
  · next t ht =>
    split at h
    · cases h
    · cases h
      exact fresh_of_ofDraft ht

/-- A fresh snapshot is read from every text of it. -/
theorem Fresh.read_text {s : Snapshot} (h : s.Fresh) {j : Json} (hj : s.toJson.Reordered j) :
    ofText j.text = .ok s ∧ ofOctets j.text.toUTF8.data.toList = .ok s := by
  have hplain := hj.plain s.plain_toJson
  have hread : Json.Document.read ⟨j.draft, false⟩ ofDraft = .ok s := by
    simp only [Json.Document.read, h.readAs j hj, Bool.false_eq_true, if_false]
  constructor
  · rw [ofText, Json.documentOf_text hplain, hread]
  · rw [ofOctets, Json.document_octets hplain, hread]

/-- A snapshot that was read from a text, or from octets, counts no requests and is read again from
every text that writes it, whatever the order of members there. Written once more, it gives the text
that it gave before. -/
theorem read_stored {s : Snapshot}
    (h : (∃ source, ofText source = .ok s) ∨ ∃ octets, ofOctets octets = .ok s) :
    s.requests = 0 ∧ ∀ j, s.toJson.Reordered j →
      ofText j.text = .ok s ∧ ofOctets j.text.toUTF8.data.toList = .ok s ∧
        (ofText j.text).map (fun t => t.toJson.text) = .ok s.toJson.text := by
  have hfresh : s.Fresh := by
    rcases h with ⟨source, h⟩ | ⟨octets, h⟩
    · exact fresh_of_read h
    · exact fresh_of_read h
  refine ⟨hfresh.requests, fun j hj => ?_⟩
  obtain ⟨htext, hoctets⟩ := hfresh.read_text hj
  exact ⟨htext, hoctets, by rw [htext, Except.map]⟩

/-- Records as arrays, a key that stands twice, and a window that ends in a leap second. -/
def leapText : String :=
  "[[[18446744073709551615,\"\\u00e9\\n\"]],\x7b\"b\":[1],\"a\":[],\"b\":[2,0]\x7d," ++
    "\x7b\x7d,\x7b\x7d,[3,1,\"+10000-01-01t01:29:60.50+01:30\"]]"

def leapSnapshot : Snapshot where
  users := [⟨18446744073709551615, "é\n"⟩]
  followers := .ofList [("a", []), ("b", [2, 0])]
  following := .empty
  lists := .empty
  rateLimit := some ⟨3, 1, ⟨9999, 12, 31, 86399, 1500000000⟩⟩
  requests := 0

theorem read_stored_leap : ofText leapText = .ok leapSnapshot ∧
    ofText leapSnapshot.toJson.text = .ok leapSnapshot := by
  have h : ofText leapText = .ok leapSnapshot := by decide +kernel
  exact ⟨h, ((read_stored (.inl ⟨_, h⟩)).2 _ (.refl _)).1⟩

example : leapSnapshot.toJson.text =
    "\x7b\"followers\":\x7b\"a\":[],\"b\":[2,0]\x7d,\"following\":\x7b\x7d,\"lists\":\x7b\x7d," ++
      "\"rate_limit\":\x7b\"limit\":3,\"remaining\":1," ++
      "\"reset_at\":\"9999-12-31T23:59:60.500Z\"\x7d," ++
      "\"users\":[\x7b\"handle\":\"é\\n\",\"id\":18446744073709551615\x7d]\x7d" := by
  decide +kernel

end Snapshot

end AccountGroups
