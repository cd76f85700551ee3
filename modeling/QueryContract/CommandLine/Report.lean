import QueryContract.CommandLine.Arguments
import QueryContract.Interchange.JsonPrinter

/-!
What a command prints: its report on the standard output, and notices and the failure on the error
output.

A path is known by the text that is shown of it. Not every path is text on the disk, and JSON holds
only those that are; `isUnicode` tells which.
-/

namespace QueryContract.CommandLine

structure Output where
  exitCode : Nat
  stdout : String
  stderr : String
  deriving DecidableEq, Repr

def programName : String := "stmtfx"

def versionText : String := "stmtfx 0.1.0"

def usageText : String :=
  "Usage: stmtfx check [FILES]... [--sql DIR] [--prefix TEXT] [--json]\n"
    ++ "       stmtfx generate OUT_DIR OUTPUT_NAME [FILES]... [--sql DIR] [--prefix TEXT]\n"
    ++ "                       [--eol lf|crlf] [--spaces N] [--struct KIND]\n"
    ++ "       stmtfx --version\n"

def unlines (lines : List String) : String := String.join (lines.map (· ++ "\n"))

def noticeLines (log : NoticeLog) : List String :=
  log.notices.map fun notice => "[*] Notice: " ++ notice.message

def failureLine (failure : Failure) : String := "[!] " ++ failure.message

def exitCodeOf : Except Failure α → Nat
  | .ok _ => 0
  | .error failure => failure.exitCode

def failureLines : Except Failure α → List String
  | .ok _ => []
  | .error failure => [failureLine failure]

def outlineLine (outline : Outline) : String :=
  "    - " ++ outline.name ++ " -> " ++ outline.method ++ "() [" ++ outline.kind.connectorMethod ++ ", "
    ++ Number.showNat outline.variants ++ " variant(s)]"

def checkLines (report : CheckReport) (log : NoticeLog) : List String :=
  [programName ++ " merge check", "  Inputs: " ++ Number.showNat report.sources.length,
    "  Operations: " ++ Number.showNat report.operations.length]
    ++ report.operations.map outlineLine
    ++ ["  Notices: " ++ Number.showNat log.notices.length, "  Result: accepted"]

def checkOutput (outcome : Except Failure CheckReport) (log : NoticeLog) : Output where
  exitCode := exitCodeOf outcome
  stdout :=
    match outcome with
    | .ok report => unlines (checkLines report log)
    | .error _ => ""
  stderr := unlines (noticeLines log ++ failureLines outcome)

open Interchange (Json)

def outlineJson (outline : Outline) : Json :=
  .object [("name", .string outline.name), ("method", .string outline.method),
    ("kind", .string outline.kind.name), ("parameters", .array (outline.parameters.map .string)),
    ("variants", .integer outline.variants)]

def noticeJson (notice : Notice) : Json :=
  .object [("kind", .string notice.kind.name), ("operation", .string notice.operation),
    ("message", .string notice.message)]

def checkJson (outcome : Except Failure CheckReport) (log : NoticeLog) : Json :=
  let (result, files, operations, error) :=
    match outcome with
    | .ok report => ("accepted", report.sources, report.operations, Json.null)
    | .error failure => ("rejected", [], [], Json.string failure.message)
  .object [("checkKind", .string CheckReport.kind), ("result", .string result),
    ("inputFiles", .array (files.map fun file => .string file.text)),
    ("operations", .array (operations.map outlineJson)),
    ("notices", .array (log.notices.map noticeJson)), ("error", error)]

/-- Whether JSON can hold every path of a report. -/
def isWritable (isUnicode : Path → Bool) : Except Failure CheckReport → Bool
  | .ok report => report.sources.all isUnicode
  | .error _ => true

/-- The program breaks off over a report that cannot be written. Where in it is not shown here. -/
def breakOff : Output where
  exitCode := 101
  stdout := ""
  stderr := unlines
    ["json serialization: Error(\"path contains invalid UTF-8 characters\", line: 0, column: 0)"]

/-- The JSON report of a check, which holds the notices. -/
def checkJsonOutput (isUnicode : Path → Bool) (outcome : Except Failure CheckReport)
    (log : NoticeLog) : Output :=
  if isWritable isUnicode outcome then
    { exitCode := exitCodeOf outcome
      stdout := unlines [(checkJson outcome log).pretty ""]
      stderr := unlines (failureLines outcome) }
  else breakOff

def generateLine (report : ArtifactReport) : String :=
  "[*] Wrote " ++ report.path.text ++ " (" ++ Number.showNat report.operations
    ++ " operations from " ++ Number.showNat report.sources.length ++ " files)"

def generateOutput (outcome : Except Failure ArtifactReport) (log : NoticeLog) : Output where
  exitCode := exitCodeOf outcome
  stdout :=
    match outcome with
    | .ok report => unlines [generateLine report]
    | .error _ => ""
  stderr := unlines (noticeLines log ++ failureLines outcome)

def start (run : Run α) (tree : FileTree) : Except Failure α × Session :=
  run.run.run ⟨tree, .empty⟩

def Invocation.perform (isUnicode : Path → Bool) (tree : FileTree) : Invocation → Output × FileTree
  | check sources stripped json =>
    let (outcome, session) := start (Run.check sources stripped) tree
    let output :=
      if json then checkJsonOutput isUnicode outcome session.log
      else checkOutput outcome session.log
    (output, session.tree)
  | generate request =>
    let (outcome, session) := start (Run.generate request) tree
    (generateOutput outcome session.log, session.tree)
  | version => (⟨0, unlines [versionText], ""⟩, tree)
  | help => (⟨0, usageText, ""⟩, tree)

/-- What is done where all paths are text. -/
def Invocation.execute (tree : FileTree) (invocation : Invocation) : Output × FileTree :=
  invocation.perform (fun _ => true) tree

end QueryContract.CommandLine
