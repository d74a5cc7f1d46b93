import AccountGroups.Loading
import Mathlib.Data.List.Induction

/-!
# Calls that a client receives

A client that keeps a record of its calls, clients whose answers depend on the arguments of a call
alone, and sources that are fetched one after another.
-/

namespace AccountGroups

/-- A call with its arguments. -/
inductive Request where
  | followerIds (handle : String)
  | friendIds (handle : String)
  | listMembers (owner list : String)
  | usersByHandle (handles : List String)
  | usersById (ids : List AccountId)
  deriving DecidableEq

/-- The call that fetches a source. An empty set of handles needs none. -/
def Source.request? : Source → Option Request
  | followers handle => some (.followerIds handle)
  | following handle => some (.friendIds handle)
  | members owner list => some (.listMembers owner list)
  | handles set => if set.isEmpty then none else some (.usersByHandle set.toList)

namespace Client

variable {σ τ : Type}

def record {α : Type} (request : Request) (call : Call σ α) : Call (σ × List Request) α :=
  fun s => ((call s.1).1, (call s.1).2, s.2 ++ [request])

/-- The same client, with the calls made so far beside its state. -/
def recorded (c : Client σ) : Client (σ × List Request) where
  followerIds handle := record (.followerIds handle) (c.followerIds handle)
  friendIds handle := record (.friendIds handle) (c.friendIds handle)
  listMembers owner list := record (.listMembers owner list) (c.listMembers owner list)
  usersByHandle handles := record (.usersByHandle handles) (c.usersByHandle handles)
  usersById ids := record (.usersById ids) (c.usersById ids)

theorem fetch_recorded (c : Client σ) (s : Source) (client : σ) (requests : List Request) :
    c.recorded.fetch s (client, requests) =
      ((c.fetch s client).1, (c.fetch s client).2, requests ++ s.request?.toList) := by
  cases s with
  | followers | following | members => rfl
  | handles set =>
    simp only [fetch, Source.request?]
    split <;> simp [recorded, record]

/-- Each answer depends on the arguments of the call alone. -/
structure Steady (c : Client σ) : Prop where
  followerIds : ∀ handle s t, (c.followerIds handle s).1 = (c.followerIds handle t).1
  friendIds : ∀ handle s t, (c.friendIds handle s).1 = (c.friendIds handle t).1
  listMembers : ∀ owner list s t, (c.listMembers owner list s).1 = (c.listMembers owner list t).1
  usersByHandle : ∀ handles s t, (c.usersByHandle handles s).1 = (c.usersByHandle handles t).1
  usersById : ∀ ids s t, (c.usersById ids s).1 = (c.usersById ids t).1

theorem Steady.fetch {c : Client σ} (h : c.Steady) (source : Source) (s t : σ) :
    (c.fetch source s).1 = (c.fetch source t).1 := by
  cases source with
  | followers handle => exact h.followerIds handle s t
  | following handle => exact h.friendIds handle s t
  | members owner list => exact h.listMembers owner list s t
  | handles set =>
    simp only [Client.fetch]
    split
    · rfl
    · simp only [h.usersByHandle set.toList s t]

/-- What fetching the sources in turn gives, and the client afterwards. -/
def fetchAll (c : Client σ) (client : σ) (order : List Source) :
    List (Source × FetchOutcome) × σ :=
  order.foldl (fun r s => (r.1 ++ [(s, (c.fetch s r.2).1)], (c.fetch s r.2).2)) ([], client)

theorem fetchAll_concat (c : Client σ) (client : σ) (order : List Source) (s : Source) :
    c.fetchAll client (order ++ [s]) =
      ((c.fetchAll client order).1 ++ [(s, (c.fetch s (c.fetchAll client order).2).1)],
        (c.fetch s (c.fetchAll client order).2).2) := by
  simp [fetchAll]

@[simp] theorem map_fst_fetchAll (c : Client σ) (client : σ) (order : List Source) :
    (c.fetchAll client order).1.map Prod.fst = order := by
  induction order using List.reverseRecOn with
  | nil => rfl
  | append_singleton order s ih => simp [fetchAll_concat, ih]

theorem lookup_fetchAll_eq_none {c : Client σ} {client : σ} {order : List Source} {s : Source} :
    (c.fetchAll client order).1.lookup s = none ↔ s ∉ order := by
  rw [List.lookup_eq_none_iff]
  have hmem : s ∈ order ↔ s ∈ (c.fetchAll client order).1.map Prod.fst := by
    rw [map_fst_fetchAll]
  rw [hmem]
  constructor
  · intro h hs
    obtain ⟨p, hp, rfl⟩ := List.mem_map.1 hs
    exact bne_iff_ne.1 (h p hp) rfl
  · intro h p hp
    rw [bne_iff_ne]
    rintro rfl
    exact h (List.mem_map_of_mem hp)

/-- When no source is fetched twice, a source has one outcome. -/
theorem lookup_fetchAll {c : Client σ} {client : σ} {order : List Source} (nodup : order.Nodup)
    {s : Source} {o : FetchOutcome} :
    (c.fetchAll client order).1.lookup s = some o ↔ (s, o) ∈ (c.fetchAll client order).1 := by
  rw [List.lookup_eq_some_iff]
  constructor
  · rintro ⟨before, after, hmade, -⟩
    rw [hmade]
    exact List.mem_append_right _ List.mem_cons_self
  · intro h
    obtain ⟨before, after, hmade⟩ := List.append_of_mem h
    refine ⟨before, after, hmade, ?_⟩
    rw [← map_fst_fetchAll c client order, hmade, List.map_append, List.nodup_append] at nodup
    intro p hp
    rw [bne_iff_ne]
    rintro rfl
    exact nodup.2.2 _ (List.mem_map_of_mem hp) _ List.mem_cons_self rfl

theorem fetchAll_recorded (c : Client σ) (client : σ) (order : List Source) :
    c.recorded.fetchAll (client, []) order =
      ((c.fetchAll client order).1, (c.fetchAll client order).2,
        order.filterMap Source.request?) := by
  induction order using List.reverseRecOn with
  | nil => rfl
  | append_singleton order s ih =>
    rw [fetchAll_concat, fetchAll_concat, ih, fetch_recorded, List.filterMap_append]
    cases hs : s.request? <;> simp [hs]

theorem Steady.fetchAll {c : Client σ} (h : c.Steady) (client any : σ) (order : List Source) :
    (c.fetchAll client order).1 = order.map fun s => (s, (c.fetch s any).1) := by
  induction order using List.reverseRecOn with
  | nil => rfl
  | append_singleton order s ih =>
    rw [fetchAll_concat, ih, List.map_append, h.fetch s _ any]
    rfl

end Client

end AccountGroups
