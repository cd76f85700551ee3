import QueryContract.Association
import QueryContract.Path

/-!
File trees: which directories and files there are, and what the files hold. A location is the list of
names from the root of the tree; the root itself is always a directory.

A path text is followed segment by segment from the working directory, or from the root if it starts
with a slash. Whatever a segment is, the place it starts from must be a directory.

Nothing is made under a name or a path text that is too long for the system. What is there is found
under any name.
-/

namespace QueryContract

inductive Node where
  | directory
  | file (content : ByteArray)

instance : DecidableEq Node
  | .directory, .directory => .isTrue rfl
  | .directory, .file _ => .isFalse nofun
  | .file _, .directory => .isFalse nofun
  | .file ⟨bytes⟩, .file ⟨others⟩ => decidable_of_iff (bytes = others) (by simp)

abbrev Location := List String

inductive FileFault where
  | missing
  | alreadyThere
  | notDirectory
  | isDirectory
  | nameTooLong
  deriving DecidableEq, Repr

def FileFault.message : FileFault → String
  | missing => "No such file or directory (os error 2)"
  | alreadyThere => "File exists (os error 17)"
  | notDirectory => "Not a directory (os error 20)"
  | isDirectory => "Is a directory (os error 21)"
  | nameTooLong => "File name too long (os error 36)"

def Location.path (location : Location) : Path := ⟨"/" ++ "/".intercalate location⟩

/-- The bytes that a name may have. -/
def nameLimit : Nat := 255

/-- The bytes that a path text may have, without the byte that ends it. -/
def pathLimit : Nat := 4095

def isLongName (name : String) : Bool := nameLimit < name.utf8ByteSize

def Location.isLong (location : Location) : Bool := pathLimit < location.path.text.utf8ByteSize

structure FileTree where
  workingDirectory : Location
  entries : Association Location Node
  deriving DecidableEq

namespace FileTree

def node? (tree : FileTree) (location : Location) : Option Node :=
  if location.isEmpty then some .directory else tree.entries.get? location

def isFileAt (tree : FileTree) (location : Location) : Bool :=
  match tree.node? location with
  | some (.file _) => true
  | _ => false

def isDirectoryAt (tree : FileTree) (location : Location) : Bool :=
  match tree.node? location with
  | some .directory => true
  | _ => false

/-- Why there is nothing under a name. -/
def absence (name : String) : FileFault := if isLongName name then .nameTooLong else .missing

def enter (tree : FileTree) (here : Location) (segment : String) : Except FileFault Location :=
  match tree.node? here with
  | none => .error .missing
  | some (.file _) => .error .notDirectory
  | some .directory =>
    if segment = "" ∨ segment = "." then .ok here
    else if segment = ".." then .ok here.dropLast
    else if (tree.node? (here ++ [segment])).isSome then .ok (here ++ [segment])
    else .error (absence segment)

def origin (tree : FileTree) (path : Path) : Location :=
  if path.isAbsolute then [] else tree.workingDirectory

def locate (tree : FileTree) (path : Path) : Except FileFault Location :=
  if path.text.isEmpty then .error .missing
  else path.segments.foldlM tree.enter (tree.origin path)

def isFile (tree : FileTree) (path : Path) : Bool :=
  match tree.locate path with
  | .ok location => tree.isFileAt location
  | .error _ => false

def isDirectory (tree : FileTree) (path : Path) : Bool :=
  match tree.locate path with
  | .ok location => tree.isDirectoryAt location
  | .error _ => false

def content (tree : FileTree) (path : Path) : Except FileFault ByteArray :=
  match tree.locate path with
  | .error fault => .error fault
  | .ok location =>
    match tree.node? location with
    | some (.file content) => .ok content
    | some .directory => .error .isDirectory
    | none => .error .missing

def put (tree : FileTree) (location : Location) (node : Node) : FileTree :=
  { tree with entries := tree.entries.put location node }

def remove (tree : FileTree) (location : Location) : FileTree :=
  { tree with entries := tree.entries.erase location }

/-- The ancestors of a location and the location itself, outermost first. -/
def chain (location : Location) : List Location :=
  (List.range (location.length + 1)).map location.take

def addDirectory (tree : FileTree) (location : Location) : FileTree :=
  if (tree.node? location).isSome then tree else tree.put location .directory

/-- Whether a directory stands at a location or can be made there. -/
def admits (tree : FileTree) (location : Location) : Bool :=
  match tree.node? location with
  | some .directory => true
  | some (.file _) => false
  | none => !isLongName (location.getLastD "")

/-- The names are followed as far as directories stand there or can be made. -/
def reachFrom (tree : FileTree) (here : Location) : List String → Location
  | [] => here
  | name :: rest =>
    if tree.admits (here ++ [name]) then tree.reachFrom (here ++ [name]) rest else here

/-- How far down the directories on the way to a location are there or can be made. -/
def reach (tree : FileTree) (location : Location) : Location :=
  if location.isLong then [] else tree.reachFrom [] location

def addDirectories (tree : FileTree) (location : Location) : FileTree :=
  (chain location).foldl addDirectory tree

def makeDirectories (tree : FileTree) (location : Location) : Except FileFault FileTree :=
  if location.isLong then .error .nameTooLong
  else
    match tree.node? location with
    | some .directory => .ok tree
    | some (.file _) => .error .alreadyThere
    | none =>
      if (chain location).any tree.isFileAt then .error .notDirectory
      else if tree.reach location = location then .ok (tree.addDirectories location)
      else .error .nameTooLong

/-- Whether a location is too long for a file. -/
def refuses (tree : FileTree) (location : Location) : Bool :=
  location.isLong || ((tree.node? location).isNone && isLongName (location.getLastD ""))

def writeFile (tree : FileTree) (location : Location) (content : ByteArray) :
    Except FileFault FileTree :=
  if tree.refuses location then .error .nameTooLong
  else if tree.isDirectoryAt location then .error .isDirectory
  else .ok (tree.put location (.file content))

/-- Moves a file to another place; a file that is there is replaced. -/
def moveFile (tree : FileTree) (source target : Location) : Except FileFault FileTree :=
  match tree.node? source with
  | some (.file content) =>
    if tree.refuses target then .error .nameTooLong
    else if tree.isDirectoryAt target then .error .isDirectory
    else .ok ((tree.remove source).put target (.file content))
  | some .directory => .error .isDirectory
  | none => .error (absence (source.getLastD ""))

/-- Everything below a location: where it is from there, and what it is. -/
def below (tree : FileTree) (location : Location) : List (Location × Node) :=
  tree.entries.pairs.filterMap fun (place, node) =>
    (location.isPrefixOf? place).bind fun rest => if rest.isEmpty then none else some (rest, node)

/-- The texts of everything below the working directory, in the order of their characters. A slash
    ends the text of a directory. -/
def listing (tree : FileTree) : List String :=
  let texts := (tree.below tree.workingDirectory).map fun (place, node) =>
    "/".intercalate place ++ (if node = .directory then "/" else "")
  texts.mergeSort fun left right => (compare left.toList right.toList).isLE

end FileTree

end QueryContract
