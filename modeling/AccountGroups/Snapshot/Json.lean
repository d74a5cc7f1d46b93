import AccountGroups.Instant.Reading
import AccountGroups.Json.Reading
import AccountGroups.Snapshot

/-!
# Snapshots as JSON

Users, windows and whole snapshots are records. A snapshot may leave fields out; the count of
requests is no field of it, so that it starts anew in a snapshot that is read.
-/

namespace AccountGroups

open Json (Draft Fault)

def id? (d : Draft) : Except Fault AccountId := (d.natural? UInt64.size).map UInt64.ofNat

def word? (d : Draft) : Except Fault UInt32 := (d.natural? UInt32.size).map UInt32.ofNat

def instant? (d : Draft) : Except Fault Instant :=
  match d.string? with
  | .error f => .error f
  | .ok text =>
    match Instant.ofText? text with
    | some i => .ok i
    | none => .error .mismatched

namespace User

/-- The fields of a user as far as they are known. -/
structure Fields where
  id : Option AccountId
  handle : Option String

def fields : List (Draft.Field Fields) := [
  ⟨"id", fun d r => (id? d).map fun v => { r with id := some v }⟩,
  ⟨"handle", fun d r => d.string?.map fun v => { r with handle := some v }⟩]

def ofDraft (d : Draft) : Except Fault User :=
  match d.record? fields ⟨none, none⟩ with
  | .error f => .error f
  | .ok ⟨some id, some handle⟩ => .ok ⟨id, handle⟩
  | .ok _ => .error .mismatched

def toJson (u : User) : Json := .object [("handle", .string u.handle), ("id", idJson u.id)]

end User

namespace RateLimit

/-- The fields of a window as far as they are known. -/
structure Fields where
  limit : Option UInt32
  remaining : Option UInt32
  resetAt : Option Instant

def fields : List (Draft.Field Fields) := [
  ⟨"limit", fun d r => (word? d).map fun v => { r with limit := some v }⟩,
  ⟨"remaining", fun d r => (word? d).map fun v => { r with remaining := some v }⟩,
  ⟨"reset_at", fun d r => (instant? d).map fun v => { r with resetAt := some v }⟩]

def ofDraft (d : Draft) : Except Fault RateLimit :=
  match d.record? fields ⟨none, none, none⟩ with
  | .error f => .error f
  | .ok ⟨some limit, some remaining, some resetAt⟩ => .ok ⟨limit, remaining, resetAt⟩
  | .ok _ => .error .mismatched

def toJson (w : RateLimit) : Json :=
  .object [("limit", .natural w.limit.toNat), ("remaining", .natural w.remaining.toNat),
    ("reset_at", .string w.resetAt.rfc3339)]

end RateLimit

namespace Snapshot

def table? (d : Draft) : Except Fault (KeyMap (List AccountId)) :=
  (d.map? fun v => v.list? id?).map .ofList

def fields : List (Draft.Field Snapshot) := [
  ⟨"users", fun d s => (d.list? User.ofDraft).map fun v => { s with users := v }⟩,
  ⟨"followers", fun d s => (table? d).map fun v => { s with followers := v }⟩,
  ⟨"following", fun d s => (table? d).map fun v => { s with following := v }⟩,
  ⟨"lists", fun d s => (table? d).map fun v => { s with lists := v }⟩,
  ⟨"rate_limit", fun d s => (d.option? RateLimit.ofDraft).map fun v => { s with rateLimit := v }⟩]

def ofDraft (d : Draft) : Except Fault Snapshot := d.record? fields empty

def ofText (source : String) : Except Fault Snapshot := (Json.documentOf source).read ofDraft

def ofOctets (octets : List UInt8) : Except Fault Snapshot :=
  (Json.document (Text.glyphs octets)).read ofDraft

def tableJson (table : KeyMap (List AccountId)) : Json :=
  .object (table.entries.map fun e => (e.1, idsJson e.2))

/-- Members stand in the order of their names. -/
def toJson (s : Snapshot) : Json :=
  .object [
    ("followers", tableJson s.followers),
    ("following", tableJson s.following),
    ("lists", tableJson s.lists),
    ("rate_limit", match s.rateLimit with
      | some w => w.toJson
      | none => .null),
    ("users", .array (s.users.map User.toJson))]

end Snapshot

end AccountGroups
