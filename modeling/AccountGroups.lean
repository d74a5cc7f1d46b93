import AccountGroups.Process
import AccountGroups.Expr.Json
import AccountGroups.Proofs.Grammar
import AccountGroups.Proofs.Handles
import AccountGroups.Proofs.Rendering
import AccountGroups.Proofs.Calls
import AccountGroups.Proofs.Interleaving
import AccountGroups.Proofs.Keys
import AccountGroups.Proofs.Meaning
import AccountGroups.Proofs.Planning
import AccountGroups.Proofs.Prefixes
import AccountGroups.Proofs.Refusal
import AccountGroups.Proofs.Sharing
import AccountGroups.Proofs.Cutting
import AccountGroups.Proofs.ComposedRuns
import AccountGroups.Proofs.Windows
import AccountGroups.Proofs.Failures
import AccountGroups.Proofs.Lowercase
import AccountGroups.Proofs.Decoding
import AccountGroups.Proofs.Lookup
import AccountGroups.Proofs.CommandLine
import AccountGroups.Proofs.Height
import AccountGroups.Proofs.Evaluation
import AccountGroups.Proofs.Storing
import AccountGroups.Proofs.Obstacles
import AccountGroups.Proofs.Variants
import AccountGroups.Proofs.HandleFiles
import AccountGroups.Proofs.Reporting
import AccountGroups.Proofs.HandleSets
import AccountGroups.Proofs.InTurn
import AccountGroups.Proofs.EventLog
import AccountGroups.Proofs.Blame
import AccountGroups.Proofs.Resolving
import AccountGroups.Proofs.FirstCalls
