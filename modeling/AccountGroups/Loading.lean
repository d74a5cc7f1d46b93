import AccountGroups.Event
import AccountGroups.Expr.Evaluation

/-!
# Loading what an expression needs

The sources of an expression are registered one after another, and the first source with a key makes
a task for that key. Tasks run in any order, also while sources are still being registered: a run
is a list of moves. When it is over, the outcomes are collected in the order of registration, and the
first failure in that order is reported.
-/

namespace AccountGroups

/-- How many tasks may run at a time, and how workers are named. -/
structure Workers where
  most : Option Nat := none
  name : String := "follow-fetch"
  deriving DecidableEq

/-- One worker for each task, at least one, and no more than allowed; a bound of zero allows one. -/
def Workers.count (w : Workers) (tasks : Nat) : Nat :=
  match w.most with
  | some bound => min (max tasks 1) (max bound 1)
  | none => max tasks 1

abbrev FetchOutcome := Except GraphError (List AccountId)

/-- Why a run fails. Workers that cannot be started are told of by whoever starts them, before a run
begins: loading takes its workers as started. -/
inductive ExecutionError where
  | expression (cause : ExprError)
  | fetch (key : String) (cause : GraphError)
  | lookup (cause : GraphError)
  | abandoned (key : String)
  | workers (reason : String)
  deriving DecidableEq

namespace ExecutionError

def message : ExecutionError → String
  | expression cause => "expression error: " ++ cause.message
  | fetch key cause => "fetching '" ++ key ++ "' failed: " ++ cause.message
  | lookup cause => "user lookup failed: " ++ cause.message
  | abandoned key => "fetch task for '" ++ key ++ "' did not complete"
  | workers reason => "cannot start fetch workers: " ++ reason

/-- The failure of a call that is behind an error. -/
def graphError? : ExecutionError → Option GraphError
  | fetch _ cause | lookup cause => some cause
  | _ => none

def isRateLimited (e : ExecutionError) : Bool :=
  match e.graphError? with
  | some (.rateLimited ..) => true
  | _ => false

end ExecutionError

structure Task where
  key : String
  source : Source
  outcome : Option FetchOutcome

/-- Tasks in the order of their making, and where the task of each key stands. -/
structure Registry where
  index : KeyMap Nat
  tasks : List Task

namespace Registry

def empty : Registry := ⟨.empty, []⟩

/-- The registry after a call, the place of the key's task, and whether the call made it. -/
structure Registered where
  registry : Registry
  slot : Nat
  created : Bool

def register (r : Registry) (key : String) (source : Source) : Registered :=
  match r.index.get? key with
  | some slot => ⟨r, slot, false⟩
  | none =>
    let slot := r.tasks.length
    ⟨⟨r.index.insert key slot, r.tasks ++ [⟨key, source, none⟩]⟩, slot, true⟩

def setOutcome (r : Registry) (slot : Nat) (outcome : FetchOutcome) : Registry :=
  { r with tasks := r.tasks.modify slot fun t => { t with outcome := some outcome } }

def collect (fetched : Fetched) : List Task → Except ExecutionError Fetched
  | [] => .ok fetched
  | t :: ts =>
    match t.outcome with
    | some (.ok ids) => collect (fetched.insert t.key ids) ts
    | some (.error e) => .error (.fetch t.key e)
    | none => .error (.abandoned t.key)

def results (r : Registry) : Except ExecutionError Fetched := collect .empty r.tasks

end Registry

/-- A run on the way: sources that wait to be registered, the tasks so far, and the client. -/
structure Loading (σ : Type) where
  waiting : List Source
  registry : Registry
  client : σ
  log : List Event

inductive Move where
  | register
  | run (slot : Nat)
  deriving DecidableEq

namespace Loading

variable {σ : Type}

def start (e : Expr) (client : σ) : Loading σ := ⟨e.sources, .empty, client, []⟩

/-- A task that has run is not run again. -/
def move (c : Client σ) (l : Loading σ) : Move → Loading σ
  | .register =>
    match l.waiting with
    | [] => l
    | s :: waiting =>
      { l with waiting := waiting, registry := (l.registry.register s.key s).registry }
  | .run slot =>
    match l.registry.tasks[slot]? with
    | some ⟨key, source, none⟩ =>
      let (outcome, next) := c.fetch source l.client
      { l with
        registry := l.registry.setOutcome slot outcome
        client := next
        log := l.log ++ [.fetchStarted key, .ofOutcome key outcome] }
    | _ => l

def moves (c : Client σ) (l : Loading σ) (ms : List Move) : Loading σ := ms.foldl (move c) l

end Loading

/-- What a run with a client gives, the client after it, and the events on the way. -/
structure Outcome (σ α : Type) where
  result : Except ExecutionError α
  client : σ
  log : List Event

def Expr.distinctKeys (e : Expr) : Ascending String := .ofList (e.sources.map Source.key)

/-- The order of moves in which the sources of an expression are registered and the tasks run. -/
abbrev Schedule := Expr → List Move

/-- All sources are registered and then the tasks run, in the order of registration. -/
def inOrder : Schedule := fun e =>
  List.replicate e.sources.length .register ++ (List.range e.distinctKeys.size).map .run

def load {σ : Type} (c : Client σ) (workers : Workers) (schedule : Schedule) (e : Expr)
    (client : σ) : Outcome σ Fetched :=
  let distinct := e.distinctKeys.size
  let begun := Event.loading e.sources.length distinct (workers.count distinct)
  let done := (Loading.start e client).moves c (schedule e)
  ⟨done.registry.results, done.client, begun :: done.log⟩

end AccountGroups
