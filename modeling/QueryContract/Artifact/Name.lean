import QueryContract.Path
import QueryContract.Text.Letters

/-!
The name of the generated container, such as `Vendor\Plugin\Queries`. It gives the namespace, the
container and the place of the file.
-/

namespace QueryContract

structure ArtifactName where
  parents : List String
  container : String
  deriving DecidableEq, Repr

namespace ArtifactName

def segments (name : ArtifactName) : List String := name.parents ++ [name.container]

def isSeparator (c : Char) : Bool := c = '\\' || c = '.'

/-- The name whose segments stand between backslashes or dots. Every segment is an identifier. -/
def read? (text : String) : Option ArtifactName :=
  let segments := text.toList.splitOnP isSeparator
  if segments.all Text.isName then
    segments.getLast?.map fun container =>
      ⟨segments.dropLast.map String.ofList, String.ofList container⟩
  else none

def invalidMessage (text : String) : String := text ++ ": Invalid FQN"

/-- The namespace; a name of one segment has none. -/
def enclosing? (name : ArtifactName) : Option String :=
  if name.parents.isEmpty then none else some ("\\".intercalate name.parents)

def display (name : ArtifactName) : String := "\\".intercalate name.segments

/-- The names of the directories and of the file, from the output directory on. -/
def location (name : ArtifactName) : List String := name.parents ++ [name.container ++ ".php"]

def path (name : ArtifactName) : Path := ⟨"/".intercalate name.location⟩

end ArtifactName

end QueryContract
