import QueryContract.Text.Blank
import QueryContract.Text.Letters

/-!
The kind of a query, told by its first keyword. Blanks and line comments before it are passed over,
and nothing after it is looked at.
-/

namespace QueryContract

inductive QueryKind where
  /-- Answers a list of rows. -/
  | select
  /-- Answers the generated key of the new row. -/
  | insert
  /-- Answers the number of changed rows. -/
  | change
  deriving DecidableEq, Repr

namespace QueryKind

def name : QueryKind → String
  | select => "select"
  | insert => "insert"
  | change => "change"

def connectorMethod : QueryKind → String
  | select => "executeSelect"
  | insert => "executeInsert"
  | change => "executeChange"

def answerType : QueryKind → String
  | select => "list<array<string, mixed>>"
  | insert | change => "int"

/-- The text after leading blanks and line comments. Inside a comment everything up to the line feed
    is passed over. -/
def afterComments (inComment : Bool) : List Char → List Char
  | [] => []
  | c :: rest =>
    if inComment then afterComments (c != '\n') rest
    else if Text.isBlank c then afterComments false rest
    else if c = '-' ∧ rest.head? = some '-' then afterComments true rest
    else c :: rest

def keyword (query : List Char) : List Char := (afterComments false query).takeWhile Char.isAlpha

def ofQuery (query : String) : QueryKind :=
  let word := keyword query.toList
  if Text.sameIgnoringCase word "select".toList then select
  else if Text.sameIgnoringCase word "insert".toList then insert
  else change

end QueryKind

end QueryContract
