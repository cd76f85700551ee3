import Mathlib.Data.List.Forall2
import QueryContract.CommandLine.Report
import QueryContract.Proofs.Interchange.Printing
import QueryContract.Proofs.Text.Pieces

/-!
What a command prints of its run. The exit code tells how the run ended; each notice is printed once
and in its place, and the failure after all of them. Two things stand against this: a JSON report
that cannot hold one of its paths is lost with its notices, and a text with line feeds takes more
than one line.
-/

namespace QueryContract.CommandLine

open Interchange (Json)

section Lines

/-- What a text is between its line feeds. -/
def piecesOf (text : String) : List String := (text.toList.splitOn '\n').map String.ofList

/-- The lines of a text in which each line ends with a line feed. -/
def linesOf (text : String) : List String := (piecesOf text).dropLast

/-- What stands after the mark, on a line that starts with it. -/
def unmark? (mark line : String) : Option String :=
  (mark.toList.isPrefixOf? line.toList).map String.ofList

def isOneLine (text : String) : Bool := !text.toList.contains '\n'

variable {lines : List String} {text line mark : String}

end Lines

def noticeMark : String := "[*] Notice: "

def failureMark : String := "[!] "

/-- The text is the notices one after another and then the failure, each after its mark. Its lines
    give back just these if none of them has a line feed, and only then; the failure stands on the
    last line if it has none. -/
structure Tells (text : String) (notices : List Notice) (failure : Option Failure) : Prop where
  text_eq : text = unlines ((notices.map fun notice => noticeMark ++ notice.message) ++
    failure.toList.map fun fault => failureMark ++ fault.message)
  lines : ((linesOf text).filterMap (unmark? noticeMark) = notices.map Notice.message ∧
      (linesOf text).filterMap (unmark? failureMark) = failure.toList.map Failure.message) ↔
    (∀ notice ∈ notices, isOneLine notice.message = true) ∧
      ∀ fault ∈ failure, isOneLine fault.message = true
  last : ∀ fault ∈ failure, (linesOf text).getLast? = some (failureMark ++ fault.message) ↔
    isOneLine fault.message = true

section Outcomes

variable {α : Type} {outcome : Except Failure α} {notices : List Notice}
  {failure : Option Failure}

end Outcomes

section Payload

open Interchange.Json (Legible)

variable {outcome : Except Failure CheckReport} {log : NoticeLog}

end Payload

section Json

variable {isUnicode : Path → Bool} {outcome : Except Failure CheckReport}

end Json

example : ((Invocation.check (.files [⟨"a.sql"⟩]) "" true).execute
    ⟨[], .ofList [(["a.sql"], .file "-- #\x7b a\n".toUTF8)]⟩).1.stderr =
      "[!] a.sql:1: unclosed group `a`\n" := by decide +kernel

end QueryContract.CommandLine
