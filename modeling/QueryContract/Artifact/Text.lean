import QueryContract.Artifact.Method
import QueryContract.Artifact.Name
import QueryContract.Artifact.Style

/-!
The generated file: a head that names its sources, and a container with one method for each operation.
It is a list of lines, each of which ends with the chosen line break.
-/

namespace QueryContract.Artifact

def toolName : String := "stmtfx"

def headLines (sources : List Path) : List String :=
  ["<?php", "", "/*", " * Auto-generated by " ++ toolName,
    " * Created from " ++ ", ".intercalate (sources.map Path.baseName), " */", "",
    "declare(strict_types=1);", ""]

def namespaceLines (name : ArtifactName) : List String :=
  match name.enclosing? with
  | some parents => ["namespace " ++ parents ++ ";", ""]
  | none => []

def importLines : List String :=
  ["use Generator;", "use poggit\\libasynql\\DataConnector;",
    "use SOFe\\AwaitGenerator\\Await;", ""]

def containerLines (contract : Contract) (name : ArtifactName) (style : Style) : List String :=
  let indent := style.indentation.text
  [style.container.words ++ " " ++ name.container ++ openBrace,
    indent ++ "public function __construct(private DataConnector $conn) " ++ openBrace ++ closeBrace]
    ++ contract.operations.flatMap (operationLines indent) ++ [closeBrace]

/-- The lines of the file. `sources` are the files in the order in which they were read. -/
def lines (contract : Contract) (sources : List Path) (name : ArtifactName) (style : Style) :
    List String :=
  headLines sources ++ namespaceLines name ++ importLines ++ containerLines contract name style

def text (contract : Contract) (sources : List Path) (name : ArtifactName) (style : Style) :
    String :=
  String.join ((lines contract sources name style).map (· ++ style.lineBreak.text))

end QueryContract.Artifact
