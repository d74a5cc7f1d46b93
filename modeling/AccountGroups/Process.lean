import AccountGroups.CommandLine

/-!
# The program as a process

The files that a call names are read first, so that the call itself has them at hand. The events of
the run that are shown are written before its output.
-/

namespace AccountGroups

/-- What the system reports by a number, which may come negated. -/
def openedOf (code : UInt32) (reason : String) : Except FileError Opened :=
  let number := if code < 0x80000000 then code else 0 - code
  if number = 2 then .error .notFound
  else if number = 20 then .error .notFolder
  else if number = 21 then .ok .folder
  else if number = 36 then .error .nameTooLong
  else .error (.other reason)

def openedAfter : IO.Error → Except FileError Opened
  | .noFileOrDirectory _ code reason => openedOf code reason
  | .inappropriateType _ code reason => openedOf code reason
  | .invalidArgument _ code reason => openedOf code reason
  | e => .error (.other (toString e))

def openPath (path : String) : IO (Except FileError Opened) := do
  try
    let content ← IO.FS.readBinFile path
    return .ok (.octets content.toList)
  catch e => return openedAfter e

def readDisk (args : List String) : IO Disk := do
  let found ← (pathsNamed args).mapM fun path => return (path, ← openPath path)
  return fun path =>
    match found.find? fun f => f.1 == path with
    | some f => f.2
    | none => .error .notFound

/-- The events that are written: those that a filter from outside lets through, or without one all
events with `--verbose` and else the warnings alone. -/
def CommandLine.Ending.shown (filter : Option (Event → Bool)) : CommandLine.Ending → List Event
  | .ran a o => o.log.filter (filter.getD fun ev => a.verbose || ev.level == .warn)
  | _ => []

def runProcess (w : Wording) (filter : Option (Event → Bool)) (args : List String) :
    IO UInt32 := do
  let ending := CommandLine.call w (← readDisk args) args
  for ev in ending.shown filter do
    IO.eprintln (w.line ev)
  let finished := ending.finished
  IO.print finished.out
  IO.eprint finished.err
  return finished.status

end AccountGroups
