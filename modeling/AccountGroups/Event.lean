import AccountGroups.Client

/-!
# Events of a run

What a run tells about itself, in the order in which it happens. Every event has a level, a message
and named fields.
-/

namespace AccountGroups

/-- What is told about a run. The time that the run took, which a clock gives, is left out of the
event that closes it. -/
inductive Event where
  | snapshotLoaded (path : String) (users : Nat)
  | loading (references distinct workers : Nat)
  | fetchStarted (key : String)
  | fetchFinished (key : String) (count : Nat)
  | rateLimited (key : String) (limit remaining : UInt32) (resetAt : Instant)
  | fetchFailed (key : String) (error : GraphError)
  | evaluated (expression : String) (fetches references : Nat) (complement : Bool) (count : Nat)
  deriving DecidableEq

namespace Event

inductive Level where
  | debug
  | info
  | warn
  deriving DecidableEq

def level : Event → Level
  | rateLimited .. | fetchFailed .. => .warn
  | evaluated .. => .info
  | _ => .debug

def message : Event → String
  | snapshotLoaded .. => "graph snapshot loaded"
  | loading .. => "loading primitives"
  | fetchStarted .. => "fetch started"
  | fetchFinished .. => "fetch finished"
  | rateLimited .. => "rate limited"
  | fetchFailed .. => "fetch failed"
  | evaluated .. => "expression evaluated"

def fields : Event → List (String × String)
  | snapshotLoaded path users => [("path", path), ("users", Text.numeral users)]
  | loading references distinct workers =>
    [("references", Text.numeral references), ("distinct", Text.numeral distinct),
      ("workers", Text.numeral workers)]
  | fetchStarted key => [("cache_key", key)]
  | fetchFinished key count => [("cache_key", key), ("count", Text.numeral count)]
  | rateLimited key limit remaining resetAt =>
    [("cache_key", key), ("limit", Text.numeral limit.toNat),
      ("remaining", Text.numeral remaining.toNat), ("reset_at", resetAt.display)]
  | fetchFailed key error => [("cache_key", key), ("error", error.message)]
  | evaluated expression fetches references complement count =>
    [("expression", expression), ("fetches", Text.numeral fetches),
      ("references", Text.numeral references),
      ("complement", if complement then "true" else "false"), ("count", Text.numeral count)]

/-- The event that tells the outcome of a fetch. -/
def ofOutcome (key : String) : Except GraphError (List AccountId) → Event
  | .ok ids => .fetchFinished key ids.length
  | .error (.rateLimited limit remaining resetAt) => .rateLimited key limit remaining resetAt
  | .error e => .fetchFailed key e

end Event

end AccountGroups
