import QueryContract.Artifact.Name
import QueryContract.Contract.Operation
import QueryContract.Declaration.Reader
import QueryContract.Files.Sources

/-!
Runs: what a run reads and changes, and how it fails. A failure keeps the notices that were found
before it.
-/

namespace QueryContract

inductive Failure where
  | invalidName (text : String)
  | missingOutput (directory : Path)
  | sources (fault : SourceFault)
  | unreadable (path : Path) (fault : FileFault)
  | encoding (path : Path)
  | declaration (path : Path) (fault : ReadFault)
  | conflict (found : Conflict)
  | output (path : Path) (fault : FileFault)
  deriving DecidableEq, Repr

namespace Failure

/-- Whether the request itself is wrong, and not what the files hold. -/
def isUsage : Failure → Bool
  | invalidName _ | missingOutput _ | sources _ => true
  | _ => false

def exitCode (failure : Failure) : Nat := if failure.isUsage then 2 else 1

def message : Failure → String
  | invalidName text => ArtifactName.invalidMessage text
  | missingOutput directory => directory.text ++ ": No such directory"
  | sources fault => fault.message
  | unreadable path fault => path.text ++ ": " ++ fault.message
  | encoding path => path.text ++ ": contains non-UTF-8 byte sequence(s)"
  | declaration path fault => fault.message path
  | .conflict found => found.message
  | output path fault => path.text ++ ": " ++ fault.message

end Failure

structure Session where
  tree : FileTree
  log : NoticeLog
  deriving DecidableEq

/-- A computation that may fail; what it did before stays done. -/
abbrev Run := ExceptT Failure (StateM Session)

namespace Run

def tree : Run FileTree := return (← get).tree

def change (path : Path) (edit : FileTree → Except FileFault FileTree) : Run Unit := do
  match edit (← tree) with
  | .ok changed => modify fun session => { session with tree := changed }
  | .error fault => throw (.output path fault)

/-- Notices go to the log of the run, and a conflict is a failure. -/
def ofRecording (recording : Recording Conflict α) : Run α := do
  let session ← get
  let (outcome, log) := recording.run.run session.log
  set { session with log := log }
  match outcome with
  | .ok value => pure value
  | .error conflict => throw (.conflict conflict)

end Run

namespace Document

def load (tree : FileTree) (path : Path) : Except Failure Document :=
  match tree.content path with
  | .error fault => .error (.unreadable path fault)
  | .ok bytes =>
    match String.fromUTF8? bytes with
    | none => .error (.encoding path)
    | some text =>
      match read path text with
      | .ok document => .ok document
      | .error fault => .error (.declaration path fault)

end Document

end QueryContract
