import AccountGroups.Proofs.Lowercase
import AccountGroups.Proofs.Registration
import AccountGroups.Snapshot

/-!
# What a stored name answers

Expressions bring handles to lowercase in the sense of Unicode, and a snapshot compares names up to
the case of ASCII letters. Where no two names of a table have one lowercase form, the entry of a
name answers the sources that name it when all characters of the name but ASCII letters are
lowercase. Any other entry answers none of them, not even one that is written as the name is.
-/

namespace AccountGroups

open Text

theorem Text.sameLetters_refl (s : String) : sameLetters s s = true := beq_self_eq_true _

/-- Where the lowercase names of items are distinct, a search finds no other item than the one that
it is meant for, as names that agree up to ASCII case have one lowercase form. -/
theorem find?_sameLetters {α : Type} {name : α → String} {items : List α}
    (distinct : (items.map fun a => lowercase (name a)).Nodup) {a : α} (ha : a ∈ items)
    {asked : String} (h : lowercase asked = lowercase (name a)) :
    (items.find? fun b => sameLetters (name b) asked) =
      if sameLetters (name a) asked then some a else none := by
  have only : ∀ b ∈ items, sameLetters (name b) asked = true → b = a := by
    intro b hb hsame
    exact List.inj_on_of_nodup_map distinct hb ha ((lowercase_eq_of_sameLetters hsame).trans h)
  cases hfind : items.find? fun b => sameLetters (name b) asked with
  | some b =>
    have hsame : sameLetters (name b) asked = true :=
      List.find?_some (p := fun b => sameLetters (name b) asked) hfind
    obtain rfl := only b (List.mem_of_find?_eq_some hfind) hsame
    rw [if_pos hsame]
  | none => rw [if_neg (List.find?_eq_none.1 hfind a ha)]

namespace Snapshot

/-- No two names of a kind have one lowercase form. -/
structure Distinct (g : Snapshot) : Prop where
  followers : (g.followers.keys.map lowercase).Nodup
  following : (g.following.keys.map lowercase).Nodup
  lists : (g.lists.keys.map lowercase).Nodup
  users : (g.users.map fun u => lowercase u.handle).Nodup

theorem lookup_of_stored {table : KeyMap (List AccountId)}
    (distinct : (table.keys.map lowercase).Nodup) {stored asked : String} {ids : List AccountId}
    (hstored : table.get? stored = some ids) (h : lowercase asked = lowercase stored) :
    lookup table asked =
      if sameLetters stored asked then .ok ids else .error (.notFound asked) := by
  unfold lookup
  cases hasked : table.get? asked with
  | some others =>
    have hkey : asked = stored := List.inj_on_of_nodup_map distinct
      (KeyMap.mem_keys.2 ⟨others, hasked⟩) (KeyMap.mem_keys.2 ⟨ids, hstored⟩) h
    rw [hkey, hstored] at hasked
    cases hasked
    rw [hkey, if_pos (sameLetters_refl stored)]
  | none =>
    obtain ⟨e, he, rfl⟩ := Option.map_eq_some_iff.1 hstored
    have hkey : e.1 = stored := by simpa using List.find?_some he
    rw [KeyMap.keys, List.map_map] at distinct
    have hfind : (table.entries.find? fun d => sameLetters d.1 asked) =
        if sameLetters e.1 asked then some e else none :=
      find?_sameLetters distinct (List.mem_of_find?_eq_some he)
        (h.trans (congrArg lowercase hkey.symm))
    rw [hfind, hkey]
    by_cases hsame : sameLetters stored asked = true
    · rw [if_pos hsame, if_pos hsame]
    · rw [if_neg hsame, if_neg hsame]

section Unlimited

variable {g : Snapshot} (unlimited : g.rateLimit = none)
variable {table : Snapshot → KeyMap (List AccountId)} {ids : List AccountId}
variable (distinct : ((table g).keys.map lowercase).Nodup)
include unlimited distinct

theorem request_of_stored {stored asked : String} (hstored : (table g).get? stored = some ids)
    (h : lowercase asked = lowercase stored) :
    (request table asked g).1 =
      if sameLetters stored asked then .ok ids else .error (.notFound asked) := by
  simp only [request, refusal?, unlimited]
  exact lookup_of_stored distinct hstored h

theorem request_of_handle {handle : String} (hstored : (table g).get? handle = some ids) :
    (request table (lowercase handle) g).1 =
      if RaisedInAscii handle then .ok ids else .error (.notFound (lowercase handle)) := by
  rw [request_of_stored unlimited distinct hstored (lowercase_lowercase handle)]
  simp only [sameLetters_lowercase_iff]

end Unlimited

variable {g : Snapshot}

theorem userNamed_of_mem (distinct : (g.users.map fun u => lowercase u.handle).Nodup) {u : User}
    (hu : u ∈ g.users) :
    g.userNamed (lowercase u.handle) = if RaisedInAscii u.handle then some u else none := by
  have hfind : g.userNamed (lowercase u.handle) =
      if sameLetters u.handle (lowercase u.handle) then some u else none :=
    find?_sameLetters distinct hu (lowercase_lowercase u.handle)
  rw [hfind]
  simp only [sameLetters_lowercase_iff]

/-- An entry answers the sources that name it when its name is raised in ASCII letters alone, and
otherwise these find nothing. For the members of a list this is told by the owner's part. -/
theorem fetch_of_stored (g : Snapshot) (unlimited : g.rateLimit = none) (distinct : g.Distinct) :
    (∀ handle ids, g.followers.get? handle = some ids →
      (client.fetch (.followersOf handle) g).1 =
        if RaisedInAscii handle then .ok ids else .error (.notFound (lowercase handle))) ∧
    (∀ handle ids, g.following.get? handle = some ids →
      (client.fetch (.followingOf handle) g).1 =
        if RaisedInAscii handle then .ok ids else .error (.notFound (lowercase handle))) ∧
    (∀ owner list ids, g.lists.get? (listName owner list) = some ids →
      (client.fetch (.membersOf owner list) g).1 =
        if RaisedInAscii owner then .ok ids
        else .error (.notFound (listName (lowercase owner) list))) ∧
    ∀ u ∈ g.users, (client.fetch (.ofHandles [u.handle]) g).1 =
      .ok (if RaisedInAscii u.handle then [u.id] else []) := by
  refine ⟨fun handle ids => request_of_handle unlimited distinct.followers,
    fun handle ids => request_of_handle unlimited distinct.following, fun owner list ids h => ?_,
    fun u hu => ?_⟩
  · have hlower :
        lowercase (listName (lowercase owner) list) = lowercase (listName owner list) := by
      rw [listName, listName, lowercase_append_slash, lowercase_append_slash, lowercase_lowercase]
    have hsame : sameLetters (listName owner list) (listName (lowercase owner) list) = true ↔
        RaisedInAscii owner := by
      rw [listName, listName, String.append_assoc, String.append_assoc]
      exact sameLetters_lowercase_append_iff
    have hanswer := request_of_stored unlimited distinct.lists h hlower
    simp only [hsame] at hanswer
    exact hanswer
  · have hone : (HandleSet.ofHandles [u.handle]).toList = [lowercase u.handle] := rfl
    have hnamed := userNamed_of_mem distinct.users hu
    simp only [Source.ofHandles, Client.fetch, Ascending.isEmpty, hone, client, Except.map]
    by_cases hraised : RaisedInAscii u.handle
    · simp [hnamed, hraised]
    · simp [hnamed, hraised]

/-- Some names have raised letters outside ASCII. -/
def accented : Snapshot :=
  ((((empty.withFollowers "Alice" [2]).withFollowers "É" [1]).withFollowing "bOb" [1]).withList
    "Ann" "ÉTÉ" [1, 2]).withUser ⟨2, "Él"⟩

theorem distinct_accented : accented.Distinct where
  followers := by decide
  following := by decide
  lists := by decide
  users := by decide

theorem fetch_of_stored_accented :
    accented.rateLimit = none ∧ accented.Distinct ∧
      (client.fetch (.followersOf "Alice") accented).1 = .ok [2] ∧
      (client.fetch (.followingOf "bOb") accented).1 = .ok [1] ∧
      (client.fetch (.membersOf "Ann" "ÉTÉ") accented).1 = .ok [1, 2] ∧
      (client.fetch (.ofHandles ["Él"]) accented).1 = .ok [] := by
  obtain ⟨hfollowers, hfollowing, hlists, husers⟩ := fetch_of_stored accented rfl distinct_accented
  refine ⟨rfl, distinct_accented, ?_, ?_, ?_, ?_⟩
  · rw [hfollowers "Alice" [2] (by decide), if_pos (by decide)]
  · rw [hfollowing "bOb" [1] (by decide), if_pos (by decide)]
  · rw [hlists "Ann" "ÉTÉ" [1, 2] (by decide), if_pos (by decide)]
  · rw [husers ⟨2, "Él"⟩ (by decide), if_neg (by decide)]

/-- The one entry is asked for by its own name and is not found. -/
theorem stored_not_found :
    (empty.withFollowers "É" [1]).rateLimit = none ∧ (empty.withFollowers "É" [1]).Distinct ∧
      (empty.withFollowers "É" [1]).followers.get? "É" = some [1] ∧
      (client.fetch (.followersOf "É") (empty.withFollowers "É" [1])).1 =
        .error (.notFound "é") := by
  refine ⟨rfl, ?_, by decide, by decide⟩
  constructor <;> decide

end Snapshot

end AccountGroups
