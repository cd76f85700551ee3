import QueryContract.Interchange.Json
import QueryContract.Number.Shortest
import QueryContract.Text.Quoted

/-!
JSON text: the compact form without blanks, and the form with one item a line and two spaces of
indentation a level.
-/

namespace QueryContract.Interchange

/-- Doubles stand without an exponent part from `1e-5` to below `1e16`, a tie takes the even digit,
    and every exponent has a sign. -/
def realLayout : Number.Layout := ⟨-5, 15, false, true⟩

def quote (text : String) : String := String.ofList (Text.Quoted.write text.toList)

namespace Json

def realText (value : Number.Binary64) : String :=
  if value.isFinite then realLayout.text value else "null"

mutual

def compact : Json → String
  | null => "null"
  | bool value => if value then "true" else "false"
  | integer value => Number.showInt value
  | real value => realText value
  | string value => quote value
  | array items => "[" ++ ",".intercalate (compactItems items) ++ "]"
  | object members => "\x7b" ++ ",".intercalate (compactMembers members) ++ "\x7d"

def compactItems : List Json → List String
  | [] => []
  | item :: rest => compact item :: compactItems rest

def compactMembers : List (String × Json) → List String
  | [] => []
  | (name, value) :: rest => (quote name ++ ":" ++ compact value) :: compactMembers rest

end

/-- An opening bracket, the items on lines of their own one level deeper, and a closing bracket. -/
def bracket (opening closing indent : String) (items : List String) : String :=
  if items.isEmpty then opening ++ closing
  else opening ++ "\n" ++ ",\n".intercalate (items.map (indent ++ "  " ++ ·)) ++ "\n" ++ indent
    ++ closing

mutual

def pretty (indent : String) : Json → String
  | array items => bracket "[" "]" indent (prettyItems (indent ++ "  ") items)
  | object members => bracket "\x7b" "\x7d" indent (prettyMembers (indent ++ "  ") members)
  | null => compact null
  | bool value => compact (bool value)
  | integer value => compact (integer value)
  | real value => compact (real value)
  | string value => compact (string value)

def prettyItems (indent : String) : List Json → List String
  | [] => []
  | item :: rest => pretty indent item :: prettyItems indent rest

def prettyMembers (indent : String) : List (String × Json) → List String
  | [] => []
  | (name, value) :: rest =>
    (quote name ++ ": " ++ pretty indent value) :: prettyMembers indent rest

end

end Json

end QueryContract.Interchange
