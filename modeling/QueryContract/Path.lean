/-!
Paths: the text that is written and shown, and the components that tell whether two texts name the
same place.
-/

namespace QueryContract

structure Path where
  text : String
  deriving DecidableEq, Repr

namespace Path

inductive Component where
  | root
  /-- The dot that a relative path may start with. -/
  | here
  | parent
  | name (text : String)
  deriving DecidableEq, Repr

def segments (path : Path) : List String := (path.text.toList.splitOn '/').map String.ofList

/-- Empty segments and single dots name nothing. -/
def Component.ofSegment? (segment : String) : Option Component :=
  if segment = "" ∨ segment = "." then none
  else if segment = ".." then some .parent
  else some (.name segment)

def isAbsolute (path : Path) : Bool := path.text.toList.head? = some '/'

/-- A leading slash and a leading dot are kept; repeated slashes, later dots and a slash at the end
    are not. -/
def components (path : Path) : List Component :=
  let first :=
    if path.isAbsolute then [.root]
    else if path.segments.head? = some "." then [.here]
    else []
  first ++ path.segments.filterMap Component.ofSegment?

def same (left right : Path) : Bool := left.components = right.components

def fileName? (path : Path) : Option String :=
  match path.components.getLast? with
  | some (.name text) => some text
  | _ => none

/-- What a list of sources shows for a path: its file name, or the whole text without one. -/
def baseName (path : Path) : String := path.fileName?.getD path.text

theorem same_self (path : Path) : path.same path = true := by simp [same]

theorem same_comm (left right : Path) : left.same right = right.same left := by
  simp only [same, eq_comm]

end Path

end QueryContract
