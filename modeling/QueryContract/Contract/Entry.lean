import QueryContract.Declaration.Document
import QueryContract.NaturalOrder

/-!
Entries: all declarations of one statement name, one for each file that declares it.
-/

namespace QueryContract

/-- The variants of one statement in the order in which their files were first seen. The first one
    is the base. -/
structure Entry where
  name : String
  base : Statement
  others : List Statement
  deriving DecidableEq, Repr

namespace Entry

def single (statement : Statement) : Entry := ⟨statement.name, statement, []⟩

def variants (entry : Entry) : List Statement := entry.base :: entry.others

/-- Puts a statement in place of the one from the same file, else at the end. -/
def replaceOrAdd (statement : Statement) : List Statement → List Statement
  | [] => [statement]
  | variant :: rest =>
    if variant.file.same statement.file then statement :: rest
    else variant :: replaceOrAdd statement rest

def add (entry : Entry) (statement : Statement) : Entry :=
  if entry.base.file.same statement.file then { entry with base := statement }
  else { entry with others := replaceOrAdd statement entry.others }

def variant? (entry : Entry) (file : Path) : Option Statement :=
  entry.variants.find? (·.file.same file)

theorem variants_add (entry : Entry) (statement : Statement) :
    (entry.add statement).variants = replaceOrAdd statement entry.variants := by
  simp only [add, variants, replaceOrAdd]
  split <;> rfl

end Entry

/-- Collects statements by name; the names stand in the order in which they were first seen. -/
structure Collector where
  entries : List Entry
  deriving DecidableEq, Repr

namespace Collector

def empty : Collector := ⟨[]⟩

def addTo (statement : Statement) : List Entry → List Entry
  | [] => [.single statement]
  | entry :: rest =>
    if entry.name = statement.name then entry.add statement :: rest
    else entry :: addTo statement rest

def add (collector : Collector) (statement : Statement) : Collector :=
  ⟨addTo statement collector.entries⟩

def addAll (collector : Collector) (statements : List Statement) : Collector :=
  statements.foldl add collector

def size (collector : Collector) : Nat := collector.entries.length

def sorted (collector : Collector) : List Entry :=
  collector.entries.mergeSort fun left right => (naturalOrder left.name right.name).isLE

end Collector

def Entry.ofStatements (statements : List Statement) : List Entry :=
  (Collector.empty.addAll statements).sorted

end QueryContract
