import QueryContract.Artifact.Comment
import QueryContract.Artifact.Literal

/-!
A generated method: it hands its arguments to the data connector and answers what the connector
answers.
-/

namespace QueryContract.Artifact

def openBrace : String := "\x7b"

def closeBrace : String := "\x7d"

def signatureType (declaration : Declaration) : String :=
  if declaration.list then "array" else valueText declaration

def signature (parameter : Parameter) : String :=
  let declaration := parameter.declaration
  let declared := signatureType declaration ++ " $" ++ parameter.name
  match declaration.fallback with
  | some value => if declaration.optional then declared ++ " = " ++ Literal.ofValue value else declared
  | none => declared

/-- An argument of the call: the variable of the query and the parameter that it takes. -/
def argument (parameter : Parameter) : String :=
  "\"" ++ parameter.name ++ "\" => $" ++ parameter.name

def signatureLine (operation : Operation) : String :=
  "public function " ++ operation.method ++ "("
    ++ ", ".intercalate (operation.parameters.canonical.map signature) ++ ") : Generator " ++ openBrace

def callLine (operation : Operation) : String :=
  "$this->conn->" ++ operation.kind.connectorMethod ++ "(" ++ Literal.doubleQuoted operation.name
    ++ ", [" ++ ", ".intercalate (operation.parameters.canonical.map argument)
    ++ "], yield Await::RESOLVE, yield Await::REJECT);"

def methodLines (indent : String) (operation : Operation) : List String :=
  [indent ++ signatureLine operation, indent ++ indent ++ callLine operation,
    indent ++ indent ++ "return yield Await::ONCE;", indent ++ closeBrace]

def operationLines (indent : String) (operation : Operation) : List String :=
  [""] ++ commentLines indent operation ++ methodLines indent operation

end QueryContract.Artifact
