import AccountGroups.Text.Basic

/-!
# Arguments of the command line

One expression, and options before or after it. The value of an option follows in the same argument
or is the next one, unless that looks like an option itself. An option whose value has been given is
settled when the next one comes, so that of two faults the earlier one is reported.
-/

namespace AccountGroups

structure Arguments where
  expression : Option String := none
  graph : Option String := none
  verbose : Bool := false
  explain : Bool := false
  maxConcurrency : Option Nat := none
  deriving DecidableEq

namespace Arguments

/-- Why the arguments ask for no run. -/
inductive Stop where
  | help
  | version
  | unknownArgument
  | invalidValue
  | badNumber
  | repeated
  | needlessValue
  deriving DecidableEq

def Stop.isFailure : Stop → Bool
  | help | version => false
  | _ => true

inductive Setting where
  | graph
  | maxConcurrency
  deriving DecidableEq

/-- An argument that has been read and not yet settled. -/
inductive Pending where
  | none
  | expression (text : String)
  | option (which : Setting) (value : Option String)
  deriving DecidableEq

structure State where
  settled : Arguments
  pending : Pending
  literal : Bool

/-- A number below `2 ^ 64`, perhaps with a plus sign. -/
def count? (value : String) : Option Nat :=
  let digits := match value.toList with
    | '+' :: rest => rest
    | cs => cs
  if digits.isEmpty || !digits.all Char.isDigit then none
  else
    let n := Text.ofDigits digits
    if n < UInt64.size then some n else none

def setOption (a : Arguments) (which : Setting) (value : String) : Except Stop Arguments :=
  match which with
  | .graph =>
    if a.graph.isSome then .error .repeated
    else if value.isEmpty then .error .invalidValue
    else .ok { a with graph := some value }
  | .maxConcurrency =>
    if a.maxConcurrency.isSome then .error .repeated
    else match count? value with
      | some n => .ok { a with maxConcurrency := some n }
      | none => .error .badNumber

def settle (s : State) : Except Stop State :=
  match s.pending with
  | .none => .ok s
  | .expression text => .ok { s with settled.expression := some text, pending := .none }
  | .option _ none => .error .invalidValue
  | .option which (some value) =>
    (setOption s.settled which value).map fun a => { s with settled := a, pending := .none }

def setVerbose (s : State) : Except Stop State :=
  (settle s).bind fun s =>
    if s.settled.verbose then .error .repeated
    else .ok { s with settled.verbose := true }

def setExplain (s : State) : Except Stop State :=
  (settle s).bind fun s =>
    if s.settled.explain then .error .repeated
    else .ok { s with settled.explain := true }

def ask (s : State) (stop : Stop) : Except Stop State := (settle s).bind fun _ => .error stop

/-- An option whose value stands in the same argument, or is still to come. -/
def option (s : State) (which : Setting) (value : Option String) : Except Stop State :=
  (settle s).bind fun s =>
    match value with
    | none => .ok { s with pending := .option which none }
    | some v => (setOption s.settled which v).map fun a => { s with settled := a }

/-- Letters after one dash. -/
def letters : List Char → State → Except Stop State
  | [], s => .ok s
  | c :: cs, s =>
    if c = 'v' then (setVerbose s).bind (letters cs)
    else if c = 'h' then ask s .help
    else if c = 'V' then ask s .version
    else if c = 'g' then
      match cs with
      | [] => option s .graph none
      | '=' :: value => option s .graph (some (String.ofList value))
      | value => option s .graph (some (String.ofList value))
    else .error .unknownArgument

/-- The name after two dashes, and the value after an equals sign. -/
def splitName (cs : List Char) : String × Option String :=
  match cs.dropWhile (· != '=') with
  | [] => (String.ofList cs, none)
  | _ :: value => (String.ofList (cs.takeWhile (· != '=')), some (String.ofList value))

def flag (value : Option String) (set : Except Stop State) : Except Stop State :=
  if value.isSome then .error .needlessValue else set

def long (s : State) (cs : List Char) : Except Stop State :=
  let (name, value) := splitName cs
  if name = "graph" then option s .graph value
  else if name = "max-concurrency" then option s .maxConcurrency value
  else if name = "verbose" then flag value (setVerbose s)
  else if name = "explain" then flag value (setExplain s)
  else if name = "help" then flag value (ask s .help)
  else if name = "version" then flag value (ask s .version)
  else .error .unknownArgument

/-- An argument that is no option: the value that an option waits for, or else the expression. -/
def plain (s : State) (arg : String) : Except Stop State :=
  match s.pending, s.literal with
  | .option which none, false => .ok { s with pending := .option which (some arg) }
  | pending, _ =>
    if pending matches .expression _ || s.settled.expression.isSome then .error .unknownArgument
    else (settle s).map fun s => { s with pending := .expression arg }

def next (s : State) (arg : String) : Except Stop State :=
  if s.literal then plain s arg
  else
    match arg.toList with
    | ['-', '-'] => .ok { s with literal := true }
    | '-' :: '-' :: cs => long s cs
    | '-' :: c :: cs => letters (c :: cs) s
    | _ => plain s arg

def readFrom (s : State) : List String → Except Stop Arguments
  | [] => (settle s).map State.settled
  | arg :: args =>
    match next s arg with
    | .error stop => .error stop
    | .ok s => readFrom s args

def read (args : List String) : Except Stop Arguments := readFrom ⟨{}, .none, false⟩ args

end Arguments

end AccountGroups
