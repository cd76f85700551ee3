import QueryContract.Artifact.Text
import QueryContract.Run.Check

/-!
Generating: the sources are read, merged and rendered, and the text is written below the output
directory. The text goes to a temporary file first, which then takes the place of the artifact.
-/

namespace QueryContract

structure ArtifactRequest where
  directory : Path
  name : String
  sources : Sources
  style : Style
  deriving DecidableEq, Repr

structure ArtifactReport where
  path : Path
  sources : List Path
  operations : Nat
  size : Nat
  deriving DecidableEq, Repr

namespace Artifact

/-- What marks a temporary name: the number of the process and the time in nanoseconds. Here the
    process has five digits, and the time goes on until the name is not in use. -/
def temporaryMark (n : Nat) : String :=
  ".tmp.10000." ++ Number.showNat (Nat.pow 10 18 + n)

def marked (target : Location) (n : Nat) : Location :=
  target.dropLast ++ [target.getLastD "" ++ temporaryMark n]

/-- A name beside a location that is not in use. -/
def temporaryBeside (tree : FileTree) (target : Location) : Location :=
  marked target
    (Number.leastFree (fun n => (tree.node? (marked target n)).isSome) 0 tree.entries.keys.length)

end Artifact

namespace Run

def outputDirectory (directory : Path) : Run Location := do
  let tree ← tree
  match tree.locate directory with
  | .ok location =>
    if tree.isDirectoryAt location then pure location else throw (.missingOutput directory)
  | .error _ => throw (.missingOutput directory)

/-- Moves a finished temporary file into place, or takes it away again. -/
def replace (temporary target : Location) : Run Unit := do
  let before ← tree
  match before.moveFile temporary target with
  | .ok moved => modify fun session => { session with tree := moved }
  | .error fault =>
    modify fun session => { session with tree := before.remove temporary }
    throw (.output target.path fault)

/-- Makes the directories up to a location. Those above a name that is too long are made before this
    is found, and they stay. -/
def makeDirectories (location : Location) : Run Unit := do
  let before ← tree
  match before.makeDirectories location with
  | .ok made => modify fun session => { session with tree := made }
  | .error fault =>
    modify fun session => { session with tree := before.addDirectories (before.reach location) }
    throw (.output location.path fault)

def place (target : Location) (content : ByteArray) : Run Unit := do
  makeDirectories target.dropLast
  let temporary := Artifact.temporaryBeside (← tree) target
  change (Location.path temporary) fun tree => tree.writeFile temporary content
  replace temporary target

def generate (request : ArtifactRequest) : Run ArtifactReport := do
  let some name := ArtifactName.read? request.name | throw (.invalidName request.name)
  let directory ← outputDirectory request.directory
  let files ← resolve request.sources
  let contract ← mergeFiles files request.style.stripped
  let text := Artifact.text contract files name request.style
  let target := directory ++ name.location
  place target text.toUTF8
  pure ⟨Location.path target, files, contract.operations.length, text.utf8ByteSize⟩

end Run

end QueryContract
