import AccountGroups.CommandLine
import AccountGroups.Proofs.Failures
import AccountGroups.Proofs.Resolving
import AccountGroups.Proofs.Windows

/-!
# What a call writes

A run that fails leaves both streams as they are, and it fails with the error of the first of its
stages that fails. A run that succeeds writes a report to one of the streams: the lines that name
accounts to the first, or to the second the mark that there are none. A plan is written without
regard to any snapshot.
-/

namespace AccountGroups

namespace Expr

variable {files files' : Files}

end Expr

namespace CommandLine

/-- The stages of a run that executes its expression. -/
inductive Stage where
  | argument
  | opening
  | decoding
  | expression
  | fetching
  | lookup
  deriving DecidableEq

/-- The place of a stage in their order. -/
def Stage.rank : Stage → Nat
  | argument => 0
  | opening => 1
  | decoding => 2
  | expression => 3
  | fetching => 4
  | lookup => 5

theorem Stage.eq_of_rank {stage stage' : Stage} (h : stage.rank = stage'.rank) :
    stage = stage' := by
  cases stage <;> cases stage' <;> simp_all [rank]

variable (w : Wording) (schedule : Schedule) (disk : Disk) (a : Arguments) (source : String)

/-- The file that is named as the snapshot holds this one. -/
def Holds (disk : Disk) (a : Arguments) (graph : Snapshot) : Prop :=
  ∃ path content, a.graph = some path ∧ disk path = .ok (.octets content) ∧
    Snapshot.ofOctets content = .ok graph

/-- The outcome of executing the expression on a snapshot. -/
abbrev executed (graph : Snapshot) : Outcome Snapshot Result :=
  execute disk.files Snapshot.client { most := a.maxConcurrency } schedule source graph

/-- A stage fails with an error when the earlier ones have given what it works on. -/
inductive Fails : Stage → RunError → Prop
  | argument (missing : a.graph = none) : Fails .argument .noGraph
  | opening {path : String} {cause : FileError} (named : a.graph = some path)
      (opened : disk path = .error cause) : Fails .opening (.unreadableSnapshot path cause)
  | folder {path : String} (named : a.graph = some path) (opened : disk path = .ok .folder) :
      Fails .decoding (.snapshotIsFolder path)
  | decoding {path : String} {content : List UInt8} {fault : Json.Fault}
      (named : a.graph = some path) (opened : disk path = .ok (.octets content))
      (decoded : Snapshot.ofOctets content = .error fault) :
      Fails .decoding (.badSnapshot path fault (w.refused content))
  | expression {cause : ExprError} (read : Expr.read disk.files source = .error cause) :
      Fails .expression (.execution (.expression cause))
  | fetching {graph : Snapshot} {e : Expr} {cause : ExecutionError} (held : Holds disk a graph)
      (read : Expr.read disk.files source = .ok e)
      (failed : (executed schedule disk a source graph).result = .error cause) :
      Fails .fetching (.execution cause)
  | lookup {graph : Snapshot} {r : Result} {cause : ExecutionError} (held : Holds disk a graph)
      (ran : (executed schedule disk a source graph).result = .ok r)
      (failed : (reportOn Snapshot.client r.group
        (executed schedule disk a source graph).client).1 = .error cause) :
      Fails .lookup (.execution cause)

/-- The stage fails and none before it does. -/
structure FailsFirst (stage : Stage) (e : RunError) : Prop where
  fails : Fails w schedule disk a source stage e
  before : ∀ earlier : Stage, earlier.rank < stage.rank →
    ∀ e', ¬ Fails w schedule disk a source earlier e'

variable {w schedule disk a source}

theorem Holds.unique {graph graph' : Snapshot} (h : Holds disk a graph) (h' : Holds disk a graph') :
    graph = graph' := by
  obtain ⟨path, content, hpath, hcontent, hgraph⟩ := h
  obtain ⟨path', content', hpath', hcontent', hgraph'⟩ := h'
  simp_all

theorem Fails.unique {stage : Stage} {e e' : RunError} (h : Fails w schedule disk a source stage e)
    (h' : Fails w schedule disk a source stage e') : e = e' := by
  cases h with
  | argument => cases h'; rfl
  | opening | folder | decoding | expression => cases h' <;> simp_all
  | fetching held _ failed =>
    cases h' with
    | fetching held' _ failed' =>
      obtain rfl := held.unique held'
      rw [failed] at failed'
      cases failed'
      rfl
  | lookup _ _ failed =>
    rw [Snapshot.reportOn_client] at failed
    cases failed

theorem FailsFirst.unique {stage stage' : Stage} {e e' : RunError}
    (h : FailsFirst w schedule disk a source stage e)
    (h' : FailsFirst w schedule disk a source stage' e') : e = e' := by
  rcases Nat.lt_trichotomy stage.rank stage'.rank with hlt | heq | hlt
  · exact absurd h.fails (h'.before stage hlt e)
  · obtain rfl := Stage.eq_of_rank heq
    exact h.fails.unique h'.fails
  · exact absurd h'.fails (h.before stage' hlt e')

example (w : Wording) :
    (call w (fun _ => .error .notFound) ["--explain", "a.followers & ~a.followers"]).finished =
      ⟨0, "Fetch plan for: a.followers & ~a.followers\n1 fetches for 2 references (1 shared)\n" ++
        "  1. follower_ids a.followers (x2)\n", ""⟩ := rfl

example (w : Wording) :
    (call w (fun _ => .ok (.octets [0x5b])) ["-g", "g.json", "a.followers"]).finished =
      ⟨1, "", "error: " ++ ("invalid graph snapshot g.json: " ++ w.refused [0x5b]) ++ "\n"⟩ := rfl

end CommandLine

end AccountGroups
