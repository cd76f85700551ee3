import QueryContract.Contract.Naming
import QueryContract.Contract.Parameters
import QueryContract.Contract.QueryKind

/-!
Operations: what a contract says of one statement after all of its variants are merged.
-/

namespace QueryContract

structure Description where
  file : Path
  text : String
  deriving DecidableEq, Repr

structure Origin where
  file : Path
  line : Nat
  deriving DecidableEq, Repr

structure Operation where
  name : String
  identifier : String
  method : String
  kind : QueryKind
  doc : Option Description
  origins : List Origin
  parameters : Parameters
  deriving DecidableEq, Repr

structure Contract where
  operations : List Operation
  deriving DecidableEq, Repr

namespace Description

def length (description : Option Description) : Nat :=
  (description.map (·.text.utf8ByteSize)).getD 0

/-- The longer one of a description and the doc of a further variant; the earlier one stays when the
    lengths are equal. -/
def longer (best : Option Description) (statement : Statement) : Option Description :=
  if length best < statement.doc.utf8ByteSize then some ⟨statement.file, statement.doc⟩ else best

/-- The longest doc of an entry, counted in bytes; none if all are empty. -/
def ofEntry (entry : Entry) : Option Description := entry.variants.foldl longer none

end Description

namespace Operation

def ofEntry (entry : Entry) (parameters : Parameters) (names : GeneratedNames) : Operation where
  name := entry.name
  identifier := names.identifier
  method := names.method
  kind := QueryKind.ofQuery entry.base.query
  doc := Description.ofEntry entry
  origins := entry.variants.map fun variant => ⟨variant.file, variant.line⟩
  parameters := parameters

end Operation

namespace Contract

def addEntry (namer : Namer) (entry : Entry) : Recording Conflict (Operation × Namer) := do
  let parameters ← Parameters.ofEntry entry
  let (names, next) ← namer.nameStatement entry.name
  pure (.ofEntry entry parameters names, next)

def operationsOf (namer : Namer) : List Entry → Recording Conflict (List Operation)
  | [] => pure []
  | entry :: rest => do
    let (operation, next) ← addEntry namer entry
    let operations ← operationsOf next rest
    pure (operation :: operations)

/-- The contract of entries, with a word stripped from the front of method names. The first
    conflict ends the run. -/
def ofEntries (stripped : String) (entries : List Entry) : Recording Conflict Contract := do
  let operations ← operationsOf (.new stripped) entries
  pure ⟨operations⟩

end Contract

end QueryContract
