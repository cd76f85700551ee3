import QueryContract.Run.Session

/-!
Checking: the sources are read and merged, and nothing is written.
-/

namespace QueryContract

structure Outline where
  name : String
  method : String
  kind : QueryKind
  parameters : List String
  variants : Nat
  deriving DecidableEq, Repr

structure CheckReport where
  sources : List Path
  operations : List Outline
  deriving DecidableEq, Repr

def CheckReport.kind : String := "stmtfx.merge_check.v1"

def Operation.outline (operation : Operation) : Outline where
  name := operation.name
  method := operation.method
  kind := operation.kind
  parameters := operation.parameters.names
  variants := operation.origins.length

namespace Run

def resolve (sources : Sources) : Run (List Path) := do
  match sources.resolve (← tree) with
  | .ok files => pure files
  | .error fault => throw (.sources fault)

def loadStatements (files : List Path) : Run (List Statement) := do
  let tree ← tree
  let loaded ← files.mapM fun path => liftExcept (Document.load tree path)
  pure (loaded.flatMap Document.statements)
where
  liftExcept (outcome : Except Failure Document) : Run Document :=
    match outcome with
    | .ok document => pure document
    | .error failure => throw failure

def mergeFiles (files : List Path) (stripped : String) : Run Contract := do
  let statements ← loadStatements files
  ofRecording (Contract.ofEntries stripped (Entry.ofStatements statements))

def check (sources : Sources) (stripped : String) : Run CheckReport := do
  let files ← resolve sources
  let contract ← mergeFiles files stripped
  pure ⟨files, contract.operations.map Operation.outline⟩

end Run

end QueryContract
