import QueryContract.Declaration.Variable
import QueryContract.Number.Shortest

/-!
Literals of generated PHP code.
-/

namespace QueryContract.Literal

/-- Floats keep a point or an exponent part, so that the literal stays a float. From `1e-4` to below
    `1e16` they stand without an exponent part, and a tie takes the upper digit. -/
def floatLayout : Number.Layout := ⟨-4, 15, true, false⟩

def escapeSingle (c : Char) : List Char := if c = '\\' ∨ c = '\'' then ['\\', c] else [c]

/-- A single-quoted literal: a backslash stands before each quote and each backslash. -/
def singleQuoted (text : String) : String :=
  String.ofList ('\'' :: text.toList.flatMap escapeSingle ++ ['\''])

def escapeDollar (c : Char) : List Char := if c = '$' then ['\\', '$'] else [c]

/-- A double-quoted literal: quoted text with a backslash before each dollar sign. -/
def doubleQuoted (text : String) : String :=
  String.ofList ((Text.Quoted.write text.toList).flatMap escapeDollar)

def ofValue : Fallback → String
  | .null => "null"
  | .int value => Number.showInt value.toInt
  | .float value => floatLayout.text value
  | .bool value => if value then "true" else "false"
  | .string value => singleQuoted value
  | .now => singleQuoted "NOW"

end QueryContract.Literal
