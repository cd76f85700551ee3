import QueryContract.Text.Blank
import QueryContract.Declaration.Variable

/-!
The lines of a declaration file. A comment that starts with `-- #` is a directive: a marker follows,
and the text after the marker is its argument. Every other line is text of a query.
-/

namespace QueryContract

inductive Directive where
  /-- No marker: an ordinary comment. -/
  | bare
  | dialect (argument : List Char)
  | opening (argument : List Char)
  | closing (argument : List Char)
  | description (argument : List Char)
  | variable (argument : List Char)
  /-- A marker without meaning, together with the text after it. -/
  | unknown (body : List Char)
  deriving DecidableEq, Repr

def Directive.ofBody : List Char → Directive
  | [] => .bare
  | marker :: rest =>
    let argument := Text.trim rest
    if marker = '!' then .dialect argument
    else if marker = '{' then .opening argument
    else if marker = '}' then .closing argument
    else if marker = '*' then .description argument
    else if marker = ':' then .variable argument
    else .unknown (marker :: rest)

inductive Line where
  | directive (directive : Directive)
  /-- A blank line or a comment, without blanks at its end. -/
  | comment (text : List Char)
  /-- A line of a query, without blanks at its end. -/
  | query (text : List Char)
  deriving DecidableEq, Repr

namespace Line

def directiveMark : List Char := "-- #".toList

def commentMark : List Char := "--".toList

def ofText (text : List Char) : Line :=
  let trimmed := Text.trim text
  match directiveMark.isPrefixOf? trimmed with
  | some body => .directive (Directive.ofBody (Text.trimStart body))
  | none =>
    if trimmed.isEmpty || commentMark.isPrefixOf trimmed then .comment (Text.trimEnd text)
    else .query (Text.trimEnd text)

end Line

structure VariableLine where
  name : List Char
  type : List Char
  default? : Option (List Char)
  deriving DecidableEq, Repr

/-- Splits the argument of a variable line. The name is an identifier and the type a run without
    blanks; blanks end both, and what follows the type is the default. -/
def VariableLine.split? (argument : List Char) : Option VariableLine :=
  let name := argument.takeWhile (!Text.isBlank ·)
  let afterName := Text.trimStart (argument.dropWhile (!Text.isBlank ·))
  let type := afterName.takeWhile (!Text.isBlank ·)
  let afterType := Text.trim (afterName.dropWhile (!Text.isBlank ·))
  if !Text.isName name || type.isEmpty then none
  else some ⟨name, type, if afterType.isEmpty then none else some afterType⟩

end QueryContract
