import AccountGroups.Expr.Reading
import AccountGroups.Loading
import AccountGroups.Plan
import AccountGroups.Report

/-!
# Running expressions

An expression is read, what it needs is loaded, and the group is computed. A second step looks up
the users that a group lists and reports them.
-/

namespace AccountGroups

structure Result where
  group : Group
  fetches : Nat
  references : Nat
  deriving DecidableEq

variable {σ : Type}

def Expr.execute (c : Client σ) (workers : Workers) (schedule : Schedule) (e : Expr)
    (client : σ) : Outcome σ Result :=
  let loaded := load c workers schedule e client
  match loaded.result with
  | .error f => ⟨.error f, loaded.client, loaded.log⟩
  | .ok fetched =>
    match e.evaluate fetched with
    | .error cause => ⟨.error (.expression cause), loaded.client, loaded.log⟩
    | .ok group =>
      let r : Result := ⟨group, fetched.size, e.sources.length⟩
      let event :=
        Event.evaluated e.render r.fetches r.references group.isComplement group.listed.size
      ⟨.ok r, loaded.client, loaded.log ++ [event]⟩

/-- A text that is no expression fails before any call. -/
def execute (files : Files) (c : Client σ) (workers : Workers) (schedule : Schedule)
    (source : String) (client : σ) : Outcome σ Result :=
  match Expr.read files source with
  | .error cause => ⟨.error (.expression cause), client, []⟩
  | .ok e => e.execute c workers schedule client

def explain (files : Files) (source : String) : Except ExecutionError Plan :=
  match Expr.read files source with
  | .error cause => .error (.expression cause)
  | .ok e => .ok (.ofExpr e)

/-- The users that a group lists. No call is made when it lists nobody. -/
def resolveUsers (c : Client σ) (g : Group) (client : σ) :
    Except ExecutionError (List User) × σ :=
  if g.listed.isEmpty then (.ok [], client)
  else match c.usersById g.listed.toList client with
    | (.ok users, next) => (.ok users, next)
    | (.error e, next) => (.error (.lookup e), next)

def reportOn (c : Client σ) (g : Group) (client : σ) : Except ExecutionError Report × σ :=
  match resolveUsers c g client with
  | (.ok users, next) => (.ok (.ofGroup g users), next)
  | (.error e, next) => (.error e, next)

end AccountGroups
