import QueryContract.Files.Tree
import QueryContract.Text.Letters

/-!
The declaration files of a run: either files that are named, or all that a directory holds.
-/

namespace QueryContract

inductive Sources where
  /-- Files in the order in which they are read. -/
  | files (paths : List Path)
  | directory (path : Path)
  deriving DecidableEq, Repr

inductive SourceFault where
  | absentFile (path : Path)
  | absentDirectory (path : Path)
  | nothingToRead
  deriving DecidableEq, Repr

def SourceFault.message : SourceFault → String
  | absentFile path => path.text ++ ": No such file"
  | absentDirectory path => path.text ++ ": No such directory"
  | nothingToRead => "Missing input files"

namespace Sources

/-- The part of a file name after its last dot. A dot that stands first counts for nothing. -/
def extension? (name : List Char) : Option (List Char) :=
  let ending := (name.reverse.takeWhile (· != '.')).reverse
  if ending.length + 1 < name.length then some ending else none

def isDeclarationName (name : String) : Bool :=
  (extension? name.toList).any fun ending => Text.sameIgnoringCase ending "sql".toList

/-- The path texts of places in a directory continue its own text. -/
def join (directory : Path) (place : Location) : Path :=
  let start :=
    if directory.text.toList.getLast? = some '/' then directory.text else directory.text ++ "/"
  ⟨start ++ "/".intercalate place⟩

def isDeclarationFile (place : Location) (node : Node) : Bool :=
  match node, place.getLast? with
  | .file _, some name => isDeclarationName name
  | _, _ => false

/-- The order of places: name by name, and each name by its characters. -/
def placeOrder (left right : Location) : Ordering :=
  compare (left.map String.toList) (right.map String.toList)

def declarationPlaces (tree : FileTree) (location : Location) : List Location :=
  let found := (tree.below location).filter fun (place, node) => isDeclarationFile place node
  (found.map (·.1)).mergeSort fun left right => (placeOrder left right).isLE

def scan (tree : FileTree) (directory : Path) : Except SourceFault (List Path) :=
  match tree.locate directory with
  | .error _ => .error (.absentDirectory directory)
  | .ok location =>
    if tree.isDirectoryAt location then
      .ok ((declarationPlaces tree location).map (join directory))
    else .error (.absentDirectory directory)

/-- The named files without repetitions, after those that were seen before. -/
def distinct (tree : FileTree) (seen : List Path) : List Path → Except SourceFault (List Path)
  | [] => .ok []
  | path :: rest =>
    if !tree.isFile path then .error (.absentFile path)
    else if seen.any (·.same path) then distinct tree seen rest
    else (distinct tree (seen ++ [path]) rest).map (path :: ·)

def resolve (tree : FileTree) (sources : Sources) : Except SourceFault (List Path) := do
  let found ←
    match sources with
    | .files paths => distinct tree [] paths
    | .directory path => scan tree path
  if found.isEmpty then .error .nothingToRead else .ok found

end Sources

end QueryContract
