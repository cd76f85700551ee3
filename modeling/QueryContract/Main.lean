import QueryContract.CommandLine.Report

/-!
The command: what an invocation names is read from the disk into a file tree, the invocation is
carried out on that tree, and what it changed is written back.
-/

namespace QueryContract.Main

open CommandLine (Invocation)

def locationOf (text : String) : Location :=
  ((text.toList.splitOn '/').map String.ofList).filter (· != "")

def observe (location : Location) : IO (Option Node) := do
  try
    let path ← IO.FS.realPath (Location.path location).text
    if ← path.isDir then pure (some .directory)
    else pure (some (.file (← IO.FS.readBinFile path)))
  catch _ => pure none

def record (tree : FileTree) (location : Location) : IO FileTree := do
  if location.isEmpty then pure tree
  else
    match ← observe location with
    | some node => pure (tree.put location node)
    | none => pure tree

def recordPath (tree : FileTree) (path : Path) : IO FileTree := do
  let mut tree := tree
  let mut here := tree.origin path
  for segment in path.segments do
    if segment = ".." then here := here.dropLast
    else if segment != "" && segment != "." then here := here ++ [segment]
    tree ← record tree here
  pure tree

partial def recordBelow (tree : FileTree) (location : Location) : IO FileTree := do
  let directory ← IO.FS.realPath (Location.path location).text
  let mut tree := tree
  for entry in ← directory.readDir do
    let place := location ++ [entry.fileName]
    tree ← record tree place
    if tree.isDirectoryAt place then tree ← recordBelow tree place
  pure tree

def recordSources (tree : FileTree) : Sources → IO FileTree
  | .files paths => paths.foldlM recordPath tree
  | .directory path => do
    let tree ← recordPath tree path
    match tree.locate path with
    | .ok location => if tree.isDirectoryAt location then recordBelow tree location else pure tree
    | .error _ => pure tree

/-- Records the output directory and the places that the artifact's path passes. -/
def recordOutput (tree : FileTree) (request : ArtifactRequest) : IO FileTree := do
  let tree ← recordPath tree request.directory
  match tree.locate request.directory, ArtifactName.read? request.name with
  | .ok location, some name =>
    (FileTree.chain (location ++ name.location)).foldlM record tree
  | _, _ => pure tree

def snapshot (invocation : Invocation) : IO FileTree := do
  let here := locationOf (← IO.currentDir).toString
  let tree ← (FileTree.chain here).foldlM record ⟨here, .empty⟩
  match invocation with
  | .check sources _ _ => recordSources tree sources
  | .generate request => recordOutput (← recordSources tree request.sources) request
  | .version | .help => pure tree

/-- Writes a file that takes its place when it is complete. -/
def storeFile (text : String) (content : ByteArray) : IO Unit := do
  let temporary := text ++ ".tmp." ++ Number.showNat (← IO.monoNanosNow)
  try
    IO.FS.writeBinFile temporary content
    IO.FS.rename temporary text
  catch error =>
    try IO.FS.removeFile temporary catch _ => pure ()
    throw error

def store (before after : FileTree) : IO Unit := do
  for (location, node) in after.entries.pairs do
    unless before.node? location = some node do
      let text := (Location.path location).text
      match node with
      | .directory => IO.FS.createDirAll text
      | .file content => storeFile text content

def run (arguments : List String) : IO UInt32 := do
  match Invocation.read? arguments with
  | none =>
    IO.eprint CommandLine.usageText
    pure 2
  | some invocation =>
    let tree ← snapshot invocation
    let (output, after) := invocation.execute tree
    store tree after
    IO.print output.stdout
    IO.eprint output.stderr
    pure (UInt32.ofNat output.exitCode)

end QueryContract.Main

def main (arguments : List String) : IO UInt32 := QueryContract.Main.run arguments
