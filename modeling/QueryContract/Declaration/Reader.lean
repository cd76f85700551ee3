import QueryContract.Declaration.Line
import QueryContract.Declaration.Document
import QueryContract.Text.Lines

/-!
Reading declaration text. Directives open and close named groups. A group holds either further
groups or one statement: a header of descriptions and variables, then the lines of its query.

A `Reader` takes one line after another and keeps the groups that are open, innermost first, and the
statements of the groups that were closed.
-/

namespace QueryContract

inductive LineFault where
  | unknownDirective (body : String)
  | lateDialect
  | invalidDialect (text : String)
  | invalidName (text : String)
  | groupAfterQuery (name parent : String)
  | groupAfterHeader (parent : String)
  | textAfterClosing (text : String)
  | unmatchedClosing
  | emptyStatement (name : String)
  | duplicateStatement (name : String)
  | malformedVariable (text : String)
  | reservedName (name : String)
  | invalidVariable (name : String) (fault : VariableFault)
  | duplicateVariable (name : String)
  | headerOutside (what : String)
  | headerAfterQuery (what : String)
  | headerOnParent (what group : String)
  | queryOutside
  | queryInParent (group : String)
  | unclosedGroup (name : String)
  deriving DecidableEq, Repr

def LineFault.message : LineFault → String
  | unknownDirective body => "unknown directive `-- #" ++ body ++ "`"
  | lateDialect => "dialect must be declared once, before any other directive"
  | invalidDialect text => "invalid dialect `" ++ text ++ "`"
  | invalidName text => "invalid statement name `" ++ text ++ "`"
  | groupAfterQuery name parent =>
    "group `" ++ name ++ "` opened after query text of `" ++ parent ++ "`"
  | groupAfterHeader parent =>
    "group `" ++ parent ++ "` declares variables or a description but contains statements"
  | textAfterClosing text => "unexpected text after `\x7d`: `" ++ text ++ "`"
  | unmatchedClosing => "unmatched `\x7d`"
  | emptyStatement name => "empty statement `" ++ name ++ "`"
  | duplicateStatement name => "duplicate statement `" ++ name ++ "`"
  | malformedVariable text => "malformed variable declaration `:" ++ text ++ "`"
  | reservedName name => "`:" ++ name ++ "` is reserved and cannot name a variable"
  | invalidVariable name fault => ":" ++ name ++ ": " ++ fault.message
  | duplicateVariable name => "duplicate variable `:" ++ name ++ "`"
  | headerOutside what => what ++ " outside of a statement"
  | headerAfterQuery what => what ++ " must precede the query text"
  | headerOnParent what group => what ++ " on group `" ++ group ++ "`, which contains statements"
  | queryOutside => "query text outside of a statement"
  | queryInParent group => "query text in group `" ++ group ++ "`, which contains statements"
  | unclosedGroup name => "unclosed group `" ++ name ++ "`"

/-- A fault and the line it is reported for. -/
structure ReadFault where
  line : Nat
  fault : LineFault
  deriving DecidableEq, Repr

structure OpenGroup where
  name : String
  line : Nat
  doc : List String
  declarations : Association String Declaration
  query : List String
  isParent : Bool
  deriving DecidableEq, Repr

namespace OpenGroup

def opened (name : String) (line : Nat) : OpenGroup := ⟨name, line, [], .empty, [], false⟩

def hasQuery (group : OpenGroup) : Bool := !group.query.isEmpty

def hasPreface (group : OpenGroup) : Bool := !group.doc.isEmpty || !group.declarations.isEmpty

end OpenGroup

structure Reader where
  dialect : Option String
  pastDirective : Bool
  /-- The open groups, innermost first. -/
  groups : List OpenGroup
  /-- The statements of closed groups, in the order of their closing. -/
  statements : List Statement
  deriving DecidableEq, Repr

namespace Reader

def start : Reader := ⟨none, false, [], []⟩

/-- The characters that no group name has: blanks, braces and dots. -/
def isNameBreak (c : Char) : Bool := Text.isBlank c || c = '{' || c = '}' || c = '.'

def isGroupName (name : List Char) : Bool := !name.isEmpty && !name.any isNameBreak

/-- The names of nested groups, innermost first, joined by dots from the outside. -/
def qualifiedName (groups : List OpenGroup) : String :=
  ".".intercalate (groups.reverse.map OpenGroup.name)

def trimString (text : String) : String := String.ofList (Text.trim text.toList)

def trimEndString (text : String) : String := String.ofList (Text.trimEnd text.toList)

def statementOf (path : Path) (name : String) (group : OpenGroup) : Statement where
  name := name
  query := trimEndString ("\n".intercalate group.query)
  declarations := group.declarations
  doc := trimString ("\n".intercalate group.doc)
  file := path
  line := group.line

def readDialect (reader : Reader) (argument : List Char) : Except LineFault Reader :=
  if reader.pastDirective then .error .lateDialect
  else if !Text.isName argument then .error (.invalidDialect (String.ofList argument))
  else .ok { reader with dialect := some (String.ofList (Text.lowercase argument)) }

/-- Opens a group inside the innermost open one, which must hold no statement of its own. -/
def openGroup (reader : Reader) (line : Nat) (argument : List Char) : Except LineFault Reader :=
  let name := String.ofList argument
  if !isGroupName argument then .error (.invalidName name)
  else
    match reader.groups with
    | [] => .ok { reader with groups := [.opened name line] }
    | parent :: outer =>
      if parent.hasQuery then .error (.groupAfterQuery name parent.name)
      else if parent.hasPreface then .error (.groupAfterHeader parent.name)
      else
        .ok { reader with groups := .opened name line :: { parent with isParent := true } :: outer }

/-- Closes the innermost group. A group without groups of its own is a statement. -/
def closeGroup (reader : Reader) (path : Path) (line : Nat) (argument : List Char) :
    Except ReadFault Reader :=
  if !argument.isEmpty then .error ⟨line, .textAfterClosing (String.ofList argument)⟩
  else
    match reader.groups with
    | [] => .error ⟨line, .unmatchedClosing⟩
    | group :: outer =>
      if group.isParent then .ok { reader with groups := outer }
      else
        let name := qualifiedName (group :: outer)
        if !group.hasQuery then .error ⟨line, .emptyStatement name⟩
        else if reader.statements.any (·.name == name) then
          .error ⟨group.line, .duplicateStatement name⟩
        else
          .ok { reader with
            groups := outer
            statements := reader.statements ++ [statementOf path name group] }

/-- Changes the innermost group, which must still accept header lines. -/
def editHeader (reader : Reader) (what : String) (edit : OpenGroup → Except LineFault OpenGroup) :
    Except LineFault Reader :=
  match reader.groups with
  | [] => .error (.headerOutside what)
  | group :: outer =>
    if group.hasQuery then .error (.headerAfterQuery what)
    else if group.isParent then .error (.headerOnParent what group.name)
    else
      match edit group with
      | .ok edited => .ok { reader with groups := edited :: outer }
      | .error fault => .error fault

def addDescription (reader : Reader) (argument : List Char) : Except LineFault Reader :=
  reader.editHeader "description" fun group =>
    .ok { group with doc := group.doc ++ [String.ofList argument] }

def reservedName : String := "this"

def addVariable (reader : Reader) (argument : List Char) : Except LineFault Reader :=
  match VariableLine.split? argument with
  | none => .error (.malformedVariable (String.ofList argument))
  | some parts =>
    let name := String.ofList parts.name
    if name = reservedName then .error (.reservedName name)
    else
      match Declaration.read parts.type parts.default? with
      | .error fault => .error (.invalidVariable name fault)
      | .ok declaration =>
        reader.editHeader "variable declaration" fun group =>
          if group.declarations.contains name then .error (.duplicateVariable name)
          else .ok { group with declarations := group.declarations.put name declaration }

/-- Adds a comment to the query of the innermost group once that query has begun. -/
def addComment (reader : Reader) (text : List Char) : Reader :=
  match reader.groups with
  | [] => reader
  | group :: outer =>
    if group.hasQuery then
      { reader with groups := { group with query := group.query ++ [String.ofList text] } :: outer }
    else reader

def addQuery (reader : Reader) (text : List Char) : Except LineFault Reader :=
  match reader.groups with
  | [] => .error .queryOutside
  | group :: outer =>
    if group.isParent then .error (.queryInParent group.name)
    else
      .ok { reader with
        groups := { group with query := group.query ++ [String.ofList text] } :: outer }

def atLine (line : Nat) : Except LineFault Reader → Except ReadFault Reader
  | .ok reader => .ok reader
  | .error fault => .error ⟨line, fault⟩

def readDirective (reader : Reader) (path : Path) (line : Nat) :
    Directive → Except ReadFault Reader
  | .bare => .ok reader
  | .dialect argument => atLine line (reader.readDialect argument)
  | .opening argument => atLine line (reader.openGroup line argument)
  | .closing argument => reader.closeGroup path line argument
  | .description argument => atLine line (reader.addDescription argument)
  | .variable argument => atLine line (reader.addVariable argument)
  | .unknown body => .error ⟨line, .unknownDirective (String.ofList body)⟩

def readLine (reader : Reader) (path : Path) (line : Nat) : Line → Except ReadFault Reader
  | .directive directive =>
    match reader.readDirective path line directive with
    | .ok next => .ok { next with pastDirective := true }
    | .error fault => .error fault
  | .comment text => .ok (reader.addComment text)
  | .query text => atLine line (reader.addQuery text)

def readLines (path : Path) (reader : Reader) (line : Nat) : List Line → Except ReadFault Reader
  | [] => .ok reader
  | first :: rest =>
    match reader.readLine path line first with
    | .ok next => next.readLines path (line + 1) rest
    | .error fault => .error fault

def finish (reader : Reader) (path : Path) : Except ReadFault Document :=
  match reader.groups with
  | [] => .ok ⟨path, reader.dialect, reader.statements⟩
  | group :: _ => .error ⟨group.line, .unclosedGroup group.name⟩

end Reader

namespace Document

def linesOf (text : String) : List Line := (Text.lines text.toList).map Line.ofText

def read (path : Path) (text : String) : Except ReadFault Document :=
  match Reader.start.readLines path 1 (linesOf text) with
  | .ok reader => reader.finish path
  | .error fault => .error fault

end Document

def ReadFault.message (path : Path) (fault : ReadFault) : String :=
  path.text ++ ":" ++ Number.showNat fault.line ++ ": " ++ fault.fault.message

end QueryContract
