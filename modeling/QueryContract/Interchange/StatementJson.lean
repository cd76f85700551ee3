import QueryContract.Declaration.Document
import QueryContract.Interchange.JsonPrinter
import QueryContract.Interchange.JsonReader

/-!
Statements as JSON. An object is written with its fields in a fixed order; on reading, fields may
stand in any order, but none of them twice, further fields mean nothing, and an array may stand for
the fields in that order.
-/

namespace QueryContract.Interchange

/-- The values of named fields, each of which may be absent from an object. -/
def fields? (names : List String) : Json → Option (List (Option Json))
  | .object members =>
    if names.all fun name => (members.map Prod.fst).count name ≤ 1 then
      some (names.map fun name => members.lookup name)
    else none
  | .array items => if items.length = names.length then some (items.map some) else none
  | _ => none

/-- A name without contents: its text, or an object in which it has the value null. -/
def unitName? : Json → Option String
  | .string name => some name
  | .object [(name, .null)] => some name
  | _ => none

namespace DefaultJson

def kindNamed (kind : String) (value : Option Json) : Json :=
  .object (("kind", .string kind) :: (value.toList.map fun value => ("value", value)))

def write : Fallback → Json
  | .null => kindNamed "null" none
  | .int value => kindNamed "int" (some (.integer value.toInt))
  | .float value => kindNamed "float" (some (.real value))
  | .bool value => kindNamed "bool" (some (.bool value))
  | .string value => kindNamed "string" (some (.string value))
  | .now => kindNamed "now" none

/-- A double, or an integer that is read as the nearest double. -/
def float? : Json → Option Number.Binary64
  | .real value => some value
  | .integer value => some (.ofInt value)
  | _ => none

def int? : Json → Option Int64
  | .integer value => Number.int64? value
  | _ => none

def isAbsent : Option Json → Bool
  | none | some .null => true
  | _ => false

def readKind? (kind : String) (value : Option Json) : Option Fallback :=
  match kind with
  | "null" => if isAbsent value then some .null else none
  | "now" => if isAbsent value then some .now else none
  | "int" => (value.bind int?).map .int
  | "float" => (value.bind float?).map .float
  | "bool" => (value.bind Json.bool?).map .bool
  | "string" => (value.bind Json.string?).map .string
  | _ => none

/-- In an object the kind may have both forms of a name without contents; in an array it is a text. -/
def read? : Json → Option Fallback
  | .object members => do
    match ← fields? ["kind", "value"] (.object members) with
    | [some kind, value] => readKind? (← unitName? kind) value
    | _ => none
  | .array [.string kind, value] => readKind? kind (some value)
  | _ => none

end DefaultJson

namespace DeclarationJson

def write (declaration : Declaration) : Json :=
  .object [("type", .string declaration.scalar.name), ("nullable", .bool declaration.nullable),
    ("list", .bool declaration.list), ("optional", .bool declaration.optional),
    ("default", (declaration.fallback.map DefaultJson.write).getD .null)]

/-- An absent default and null both mean that there is none. -/
def readDefault? : Option Json → Option (Option Fallback)
  | none | some .null => some none
  | some json => (DefaultJson.read? json).map some

def read? (json : Json) : Option Declaration := do
  match ← fields? ["type", "nullable", "list", "optional", "default"] json with
  | [some type, some nullable, some list, some optional, value] =>
    some ⟨← Scalar.named? (← unitName? type), ← nullable.bool?, ← list.bool?, ← optional.bool?,
      ← readDefault? value⟩
  | _ => none

end DeclarationJson

namespace StatementJson

def writeVariables (declarations : Association String Declaration) : Json :=
  .object (declarations.pairs.map fun (name, declaration) => (name, DeclarationJson.write declaration))

def write (statement : Statement) : Json :=
  .object [("name", .string statement.name), ("query", .string statement.query),
    ("variables", writeVariables statement.declarations), ("doc", .string statement.doc),
    ("sourceFile", .string statement.file.text), ("sourceLine", .integer statement.line)]

def readVariable? (member : String × Json) : Option (String × Declaration) :=
  (DeclarationJson.read? member.2).map fun declaration => (member.1, declaration)

def readVariables? : Json → Option (Association String Declaration)
  | .object members => (members.mapM readVariable?).map Association.ofList
  | _ => none

def line? : Json → Option Nat
  | .integer value => if 0 ≤ value then some value.toNat else none
  | _ => none

def read? (json : Json) : Option Statement := do
  match ← fields? ["name", "query", "variables", "doc", "sourceFile", "sourceLine"] json with
  | [some name, some query, some declarations, some doc, some file, some line] =>
    some ⟨← name.string?, ← query.string?, ← readVariables? declarations, ← doc.string?,
      ⟨← file.string?⟩, ← line? line⟩
  | _ => none

def text (statement : Statement) : String := (write statement).compact

def ofText? (text : String) : Option Statement := (Json.read? text).bind read?

end StatementJson

end QueryContract.Interchange
