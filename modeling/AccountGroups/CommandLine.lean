import AccountGroups.CommandLine.Arguments
import AccountGroups.Disk
import AccountGroups.Execution
import AccountGroups.Snapshot.Json

/-!
# The command line

A run reads a snapshot, executes one expression on it and writes the report; with `--explain` it
writes the fetch plan instead and needs no snapshot. It writes to two streams, behind what stands
there already. Arguments and JSON are read by readers that word their refusals themselves, so that
these texts are taken from outside.
-/

namespace AccountGroups

inductive RunError where
  | noGraph
  | unreadableSnapshot (path : String) (cause : FileError)
  | badSnapshot (path : String) (fault : Json.Fault) (reason : String)
  | snapshotIsFolder (path : String)
  | execution (cause : ExecutionError)
  deriving DecidableEq

namespace RunError

def message : RunError → String
  | noGraph => "no social graph given; pass --graph <snapshot.json>"
  | unreadableSnapshot path cause =>
    "cannot read graph snapshot " ++ path ++ ": " ++ cause.message
  | badSnapshot path _ reason => "invalid graph snapshot " ++ path ++ ": " ++ reason
  | snapshotIsFolder path =>
    "invalid graph snapshot " ++ path ++ ": " ++ FileError.isFolder.message
  | execution cause => cause.message

end RunError

/-- The texts whose wording is not the program's own. -/
structure Wording where
  /-- What is said of arguments that ask for no run. -/
  stopped : List String → String
  help : String
  /-- What the reader of JSON says of octets that hold no snapshot. -/
  refused : List UInt8 → String
  /-- How an event is written to the log. -/
  line : Event → String

def pathsIn (expression : String) : List String :=
  match Token.scan expression with
  | .ok tokens => tokens.filterMap fun t =>
    match t.lexeme with
    | .file path => some path
    | _ => none
  | .error _ => []

def pathsNamed (args : List String) : List String :=
  match Arguments.read args with
  | .ok a => a.graph.toList ++ (a.expression.map pathsIn).getD []
  | .error _ => []

/-- What stands on the two streams of a process. -/
structure Streams where
  out : String := ""
  err : String := ""
  deriving DecidableEq

namespace Streams

def print (s : Streams) (text : String) : Streams := { s with out := s.out ++ text }

def note (s : Streams) (text : String) : Streams := { s with err := s.err ++ text }

end Streams

/-- The streams after a run, how it went, and the events on the way. -/
structure RunOutput extends Streams where
  result : Except RunError Unit
  log : List Event

namespace CommandLine

def readSnapshot (w : Wording) (disk : Disk) (path : String) : Except RunError Snapshot :=
  match disk path with
  | .error cause => .error (.unreadableSnapshot path cause)
  | .ok .folder => .error (.snapshotIsFolder path)
  | .ok (.octets content) =>
    (Snapshot.ofOctets content).mapError fun fault => .badSnapshot path fault (w.refused content)

def withNewline (line : String) : String := line ++ "\n"

def writeReport (r : Report) (s : Streams) : Streams :=
  let printed := r.lines.foldl (fun s line => s.print (withNewline line)) s
  match r.diagnostic with
  | some marker => printed.note (withNewline marker)
  | none => printed

def runExplain (disk : Disk) (expression : String) (s : Streams) : RunOutput :=
  match explain disk.files expression with
  | .ok plan => ⟨s.print plan.render, .ok (), []⟩
  | .error cause => ⟨s, .error (.execution cause), []⟩

def runOn (schedule : Schedule) (disk : Disk) (workers : Workers) (expression : String)
    (graph : Snapshot) (log : List Event) (s : Streams) : RunOutput :=
  let run := execute disk.files Snapshot.client workers schedule expression graph
  let log := log ++ run.log
  match run.result with
  | .error cause => ⟨s, .error (.execution cause), log⟩
  | .ok r =>
    match (reportOn Snapshot.client r.group run.client).1 with
    | .error cause => ⟨s, .error (.execution cause), log⟩
    | .ok report => ⟨writeReport report s, .ok (), log⟩

def run (w : Wording) (schedule : Schedule) (disk : Disk) (a : Arguments) (expression : String)
    (s : Streams) : RunOutput :=
  if a.explain then runExplain disk expression s
  else
    match a.graph with
    | none => ⟨s, .error .noGraph, []⟩
    | some path =>
      match readSnapshot w disk path with
      | .error e => ⟨s, .error e, []⟩
      | .ok graph =>
        runOn schedule disk { most := a.maxConcurrency } expression graph
          [.snapshotLoaded path graph.users.length] s

def versionText : String := "follow-algebra-cli 0.1.0\n"

/-- How a call of the program ends. A call that makes no run ends with a text. -/
inductive Ending where
  | stopped (reason : Arguments.Stop) (text : String)
  | noExpression (a : Arguments) (text : String)
  | ran (a : Arguments) (output : RunOutput)

def stopText (w : Wording) (args : List String) : Arguments.Stop → String
  | .version => versionText
  | _ => w.stopped args

/-- A call whose tasks run as scheduled, with nothing on its streams yet. -/
def callUnder (w : Wording) (schedule : Schedule) (disk : Disk) (args : List String) : Ending :=
  match Arguments.read args with
  | .error stop => .stopped stop (stopText w args stop)
  | .ok a =>
    match a.expression with
    | none => .noExpression a w.help
    | some expression => .ran a (run w schedule disk a expression {})

def call (w : Wording) (disk : Disk) (args : List String) : Ending := callUnder w inOrder disk args

/-- What a process leaves that writes no log: its exit status and the text on its streams. -/
structure Finished where
  status : UInt32
  out : String
  err : String
  deriving DecidableEq

def Ending.finished : Ending → Finished
  | stopped reason text => if reason.isFailure then ⟨2, "", text⟩ else ⟨0, text, ""⟩
  | noExpression _ text => ⟨1, "", withNewline text⟩
  | ran _ o =>
    match o.result with
    | .ok () => ⟨0, o.out, o.err⟩
    | .error e => ⟨1, o.out, o.err ++ "error: " ++ e.message ++ "\n"⟩

end CommandLine

end AccountGroups
