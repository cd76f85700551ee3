import QueryContract.Contract.Operation
import QueryContract.Text.Lines

/-!
The doc comment of a generated method: the description, the places of the declarations and the types.
Text in the comment cannot end the comment.
-/

namespace QueryContract.Artifact

def scalarText : Scalar → String
  | .string | .timestamp => "string"
  | .int => "int"
  | .float => "float"
  | .bool => "bool"

def valueText (declaration : Declaration) : String :=
  (if declaration.nullable then "?" else "") ++ scalarText declaration.scalar

/-- The type of a parameter in a comment, which tells what a list holds. -/
def documentedType (declaration : Declaration) : String :=
  if declaration.list then "list<" ++ valueText declaration ++ ">" else valueText declaration

def generatorType : String :=
  "Generator<mixed, 'all'|'once'|'race'|'reject'|'resolve'|array\x7b'resolve'\x7d|"
    ++ "Generator<mixed, mixed, mixed, mixed>|null, mixed, "

def descriptionLines (doc : Option Description) : List String :=
  match doc with
  | none => []
  | some doc =>
    ["<i>(Description from " ++ doc.file.text ++ ")</i>", ""]
      ++ (Text.lines doc.text.toList).map String.ofList ++ [""]

def originLine (origin : Origin) : String :=
  "- " ++ origin.file.text ++ ":" ++ Number.showNat origin.line

def parameterLine (parameter : Parameter) : String :=
  "@param " ++ documentedType parameter.declaration ++ " $" ++ parameter.name

def answerLine (kind : QueryKind) : String :=
  "@return " ++ generatorType ++ kind.answerType ++ ">"

def documentation (operation : Operation) : List String :=
  descriptionLines operation.doc ++ ["<h4>Declared in:</h4>"]
    ++ operation.origins.map originLine
    ++ operation.parameters.canonical.map parameterLine ++ [answerLine operation.kind]

/-- The text with a backslash inside each mark that ends a comment. -/
def guardComment : List Char → List Char
  | [] => []
  | c :: rest =>
    if c = '*' ∧ rest.head? = some '/' then '*' :: '\\' :: guardComment rest
    else c :: guardComment rest

def commentLine (indent text : String) : String :=
  let guarded := String.ofList (guardComment text.toList)
  if guarded.isEmpty then indent ++ " *" else indent ++ " * " ++ guarded

def commentLines (indent : String) (operation : Operation) : List String :=
  [indent ++ "/**"] ++ (documentation operation).map (commentLine indent) ++ [indent ++ " */"]

end QueryContract.Artifact
