import QueryContract.Interchange.JsonNumber
import QueryContract.Text.Quoted

/-!
Reading JSON text: the characters become tokens, and the tokens build a value on a stack of the
arrays and objects that are still open.
-/

namespace QueryContract.Interchange

open Text (Quoted.Reader)

inductive Token where
  | openArray
  | closeArray
  | openObject
  | closeObject
  | comma
  | colon
  | scalar (value : Json)

namespace Token

/-- What the characters read so far leave open. -/
inductive Pending where
  | nothing
  | quoted (reader : Quoted.Reader)
  /-- The characters of a number or a name, latest first. -/
  | word (latest : List Char)

def ofWord? (word : List Char) : Option Token :=
  match String.ofList word with
  | "null" => some (scalar .null)
  | "true" => some (scalar (.bool true))
  | "false" => some (scalar (.bool false))
  | _ => (JsonNumber.read? word).map scalar

def punctuation? : Char → Option Token
  | '[' => some openArray
  | ']' => some closeArray
  | '{' => some openObject
  | '}' => some closeObject
  | ',' => some comma
  | ':' => some colon
  | _ => none

def isGap (c : Char) : Bool := c = ' ' || c = '\t' || c = '\n' || c = '\r'

/-- A character between tokens: the tokens it is, and what it opens. -/
def start (c : Char) : List Token × Pending :=
  if isGap c then ([], .nothing)
  else if c = '"' then ([], .quoted .start)
  else
    match punctuation? c with
    | some token => ([token], .nothing)
    | none => ([], .word [c])

/-- The tokens that one more character completes, and what is open after it. -/
def step? (pending : Pending) (c : Char) : Option (List Token × Pending) :=
  match pending with
  | .nothing => some (start c)
  | .quoted reader =>
    match reader.step c with
    | .error _ => none
    | .ok next =>
      match next.mode with
      | .closed => some ([scalar (.string (String.ofList next.text))], .nothing)
      | _ => some ([], .quoted next)
  | .word latest =>
    if isGap c || c = '"' || (punctuation? c).isSome then
      (ofWord? latest.reverse).map fun token =>
        let (tokens, next) := start c
        (token :: tokens, next)
    else some ([], .word (c :: latest))

def scanFrom? : Pending → List Char → Option (List Token)
  | .nothing, [] => some []
  | .quoted _, [] => none
  | .word latest, [] => (ofWord? latest.reverse).map ([·])
  | pending, c :: rest => do
    let (tokens, next) ← step? pending c
    let others ← scanFrom? next rest
    some (tokens ++ others)

def scan? (text : List Char) : Option (List Token) := scanFrom? .nothing text

end Token

namespace Json

inductive Frame where
  | array (latest : List Json)
  | object (latest : List (String × Json))
  | member (latest : List (String × Json)) (name : String)

inductive Expected where
  | value
  | itemOrEnd
  | nameOrEnd
  | name
  | colon
  | commaOrEnd

structure Builder where
  frames : List Frame
  expected : Expected
  result : Option Json

namespace Builder

def start : Builder := ⟨[], .value, none⟩

/-- Gives a finished value to the innermost open array or object. -/
def finish? (frames : List Frame) (value : Json) : Option Builder :=
  match frames with
  | [] => some ⟨[], .commaOrEnd, some value⟩
  | .array latest :: outer => some ⟨.array (value :: latest) :: outer, .commaOrEnd, none⟩
  | .member latest name :: outer =>
    some ⟨.object ((name, value) :: latest) :: outer, .commaOrEnd, none⟩
  | .object _ :: _ => none

def openValue? (builder : Builder) : Token → Option Builder
  | .openArray => some ⟨.array [] :: builder.frames, .itemOrEnd, none⟩
  | .openObject => some ⟨.object [] :: builder.frames, .nameOrEnd, none⟩
  | .scalar value => finish? builder.frames value
  | _ => none

def close? (builder : Builder) : Token → Option Builder
  | .closeArray =>
    match builder.frames with
    | .array latest :: outer => finish? outer (.array latest.reverse)
    | _ => none
  | .closeObject =>
    match builder.frames with
    | .object latest :: outer => finish? outer (.object latest.reverse)
    | _ => none
  | _ => none

def name? (builder : Builder) : Token → Option Builder
  | .scalar (.string name) =>
    match builder.frames with
    | .object latest :: outer => some ⟨.member latest name :: outer, .colon, none⟩
    | _ => none
  | _ => none

def comma? (builder : Builder) : Token → Option Builder
  | .comma =>
    match builder.frames with
    | .array _ :: _ => some { builder with expected := .value }
    | .object _ :: _ => some { builder with expected := .name }
    | _ => none
  | _ => none

def step? (builder : Builder) (token : Token) : Option Builder :=
  match builder.expected with
  | .value => builder.openValue? token
  | .itemOrEnd => (builder.close? token).or (builder.openValue? token)
  | .nameOrEnd => (builder.close? token).or (builder.name? token)
  | .name => builder.name? token
  | .colon =>
    match token with
    | .colon => some { builder with expected := .value }
    | _ => none
  | .commaOrEnd => (builder.close? token).or (builder.comma? token)

end Builder

def read? (text : String) : Option Json := do
  let tokens ← Token.scan? text.toList
  let builder ← tokens.foldlM Builder.step? .start
  builder.result

end Json

end QueryContract.Interchange
