import QueryContract.Contract.Notice
import QueryContract.Number.Decimal
import QueryContract.Number.LeastFree

/-!
Names of generated code. A statement name becomes an upper-case identifier such as
`PLAYERS_GET_TOP`, and the identifier a camel-case method name such as `playersGetTop`.

Both are unique within a run. A later name that is taken gets the least free number from 2 on, and
methods count as the same name whatever their case is.
-/

namespace QueryContract

open Text (lowercase)

namespace Naming

/-- Upper-case letters and digits, with one underscore for each run of other characters. -/
def upperWords (inGap : Bool) : List Char → List Char
  | [] => []
  | c :: rest =>
    if c.isAlphanum then c.toUpper :: upperWords false rest
    else if inGap then upperWords true rest
    else '_' :: upperWords true rest

def startsWithDigit (text : List Char) : Bool := text.head?.any Char.isDigit

def identifierOf (name : String) : String :=
  let words := upperWords false name.toList
  String.ofList (if startsWithDigit name.toList then '_' :: words else words)

def titleCase (word : List Char) : List Char :=
  match lowercase word with
  | [] => []
  | first :: rest => first.toUpper :: rest

def camelCase (identifier : List Char) : List Char :=
  (identifier.splitOn '_').flatMap titleCase

/-- The text after a leading word, in whatever case that word is. -/
def afterWord? (word text : List Char) : Option (List Char) :=
  if !word.isEmpty && (lowercase word).isPrefixOf (lowercase text) then some (text.drop word.length)
  else none

/-- The camel-case text without the stripped word. The word stays when nothing would remain or when
    the rest would start with a digit. -/
def stripWord (stripped camel : List Char) : List Char :=
  match afterWord? stripped camel with
  | some rest => if rest.isEmpty || startsWithDigit rest then camel else rest
  | none => camel

/-- A method name starts with a small letter or an underscore. -/
def methodStart : List Char → List Char
  | [] => ['_']
  | first :: rest => if first.isDigit then '_' :: first :: rest else first.toLower :: rest

def methodOf (stripped identifier : String) : String :=
  String.ofList (methodStart (stripWord stripped.toList (camelCase identifier.toList)))

/-- The keys handed out so far, latest first, each with the statement that holds it. -/
abbrev Holders := List (String × String)

def Holders.taken (holders : Holders) (key : String) : Bool := (holders.lookup key).isSome

/-- The wanted name, or the wanted name with the least free number. Names with one key are the same
    name. With the name comes the holder of the wanted name, if there is one. -/
def choose (key : String → String) (numbered : Nat → String) (wanted : String) (holders : Holders) :
    String × Option String :=
  match holders.lookup (key wanted) with
  | none => (wanted, none)
  | some holder =>
    let number := Number.leastFree (fun n => holders.taken (key (numbered n))) 2 holders.length
    (numbered number, some holder)

def chooseIdentifier (holders : Holders) (wanted : String) : String × Option String :=
  choose id (fun n => wanted ++ "_" ++ Number.showNat n) wanted holders

def methodKey (method : String) : String := String.ofList (lowercase method.toList)

def chooseMethod (holders : Holders) (wanted : String) : String × Option String :=
  choose methodKey (fun n => wanted ++ Number.showNat n) wanted holders

end Naming

structure Namer where
  stripped : String
  identifiers : Naming.Holders
  methods : Naming.Holders
  deriving DecidableEq, Repr

structure GeneratedNames where
  identifier : String
  method : String
  deriving DecidableEq, Repr

namespace Namer

def new (stripped : String) : Namer := ⟨stripped, [], []⟩

/-- Names a statement; a number that had to be added is recorded. -/
def nameStatement (namer : Namer) (statement : String) : Recording ε (GeneratedNames × Namer) := do
  let (identifier, identifierHolder) :=
    Naming.chooseIdentifier namer.identifiers (Naming.identifierOf statement)
  if let some first := identifierHolder then
    notify (.takenIdentifier first statement identifier)
  let (method, methodHolder) :=
    Naming.chooseMethod namer.methods (Naming.methodOf namer.stripped identifier)
  if let some first := methodHolder then
    notify (.takenMethod first statement method)
  let next :=
    { namer with
      identifiers := (identifier, statement) :: namer.identifiers
      methods := (Naming.methodKey method, statement) :: namer.methods }
  pure (⟨identifier, method⟩, next)

end Namer

end QueryContract
