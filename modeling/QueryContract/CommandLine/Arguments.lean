import QueryContract.Run.Generate

/-!
Command lines: a command, options that start with two hyphens, and positional arguments. The value of
an option follows it as the next argument or after an equals sign. After two hyphens alone all
arguments are positional. No option is given twice.

Arguments are taken from left to right, and the first one that is wrong or asks for help decides.
What several arguments together have to satisfy is looked at when all of them are taken.
-/

namespace QueryContract.CommandLine

inductive Invocation where
  | check (sources : Sources) (stripped : String) (json : Bool)
  | generate (request : ArtifactRequest)
  | version
  | help
  deriving DecidableEq

structure Options where
  flags : List String
  /-- The options with a value, and whether a text is one of its values. -/
  valued : List (String × (String → Bool))
  positional : Nat → String → Bool

namespace Options

def takesValue (options : Options) (name : String) : Bool := (options.valued.lookup name).isSome

def accepts (options : Options) (name value : String) : Bool :=
  (options.valued.lookup name).any fun isValue => isValue value

end Options

structure Arguments where
  flags : List String
  values : Association String String
  positional : List String
  deriving DecidableEq, Repr

inductive Stop where
  | rejected
  | helpWanted
  deriving DecidableEq, Repr

namespace Arguments

def none : Arguments := ⟨[], .empty, []⟩

def value? (arguments : Arguments) (name : String) : Option String :=
  arguments.values.get? name

def addFlag (arguments : Arguments) (name : String) : Except Stop Arguments :=
  if arguments.flags.contains name then .error .rejected
  else .ok { arguments with flags := arguments.flags ++ [name] }

def addValue (options : Options) (arguments : Arguments) (name value : String) :
    Except Stop Arguments :=
  if arguments.values.contains name || !options.accepts name value then .error .rejected
  else .ok { arguments with values := arguments.values.put name value }

def addPositional (options : Options) (arguments : Arguments) (text : String) :
    Except Stop Arguments :=
  if options.positional arguments.positional.length text then
    .ok { arguments with positional := arguments.positional ++ [text] }
  else .error .rejected

/-- Whether an argument is read as an option. A hyphen alone is not. -/
def looksLikeOption (argument : String) : Bool :=
  argument.toList.head? = some '-' && argument != "-"

/-- The name of a long option and the text after its first equals sign. -/
def splitLong (argument : List Char) : String × Option String :=
  let name := argument.takeWhile (· != '=')
  match argument.dropWhile (· != '=') with
  | [] => (String.ofList name, Option.none)
  | _ :: value => (String.ofList name, some (String.ofList value))

/-- Takes an option in; on the right stands the option whose value has to follow. -/
def addOption (options : Options) (arguments : Arguments) (argument : String) :
    Except Stop (Arguments × Option String) :=
  match "--".toList.isPrefixOf? argument.toList with
  | Option.none =>
    if "-h".toList.isPrefixOf argument.toList then .error .helpWanted else .error .rejected
  | some long =>
    match splitLong long with
    | (name, some value) =>
      (addValue options arguments name value).map fun added => (added, Option.none)
    | (name, Option.none) =>
      if name = "help" then .error .helpWanted
      else if options.flags.contains name then
        (arguments.addFlag name).map fun added => (added, Option.none)
      else if options.takesValue name then .ok (arguments, some name)
      else .error .rejected

/-- Takes the arguments of a command in. `awaiting` is the option whose value has to come next. -/
def scan (options : Options) (arguments : Arguments) (awaiting : Option String) :
    List String → Except Stop Arguments
  | [] => if awaiting.isSome then .error .rejected else .ok arguments
  | argument :: rest =>
    match awaiting with
    | some name =>
      if looksLikeOption argument then .error .rejected
      else
        match addValue options arguments name argument with
        | .ok added => scan options added Option.none rest
        | .error stop => .error stop
    | Option.none =>
      if argument = "--" then rest.foldlM (addPositional options) arguments
      else if looksLikeOption argument then
        match addOption options arguments argument with
        | .ok (added, next) => scan options added next rest
        | .error stop => .error stop
      else
        match addPositional options arguments argument with
        | .ok added => scan options added Option.none rest
        | .error stop => .error stop

end Arguments

def path? (text : String) : Option Path := if text.isEmpty then none else some ⟨text⟩

/-- An optional value: absent, or in the form that `read` accepts. -/
def readValue? (arguments : Arguments) (name : String) (read : String → Option α) :
    Option (Option α) :=
  match arguments.value? name with
  | none => some none
  | some text => (read text).map some

/-- Named files, or the directory given as an option; not both. -/
def sources? (arguments : Arguments) (files : List String) : Option Sources := do
  match ← readValue? arguments "sql" path? with
  | some directory => if files.isEmpty then some (.directory directory) else none
  | none => (files.mapM path?).map .files

def isPath (text : String) : Bool := (path? text).isSome

def isText (_ : String) : Bool := true

def checkOptions : Options where
  flags := ["json"]
  valued := [("sql", isPath), ("prefix", isText)]
  positional := fun _ text => isPath text

def check? (arguments : Arguments) : Option Invocation := do
  let sources ← sources? arguments arguments.positional
  some (.check sources ((arguments.value? "prefix").getD "") (arguments.flags.contains "json"))

/-- A width is written in digits, with a plus sign at most, and has 64 bits. -/
def width? (text : String) : Option Nat :=
  let digits := if text.toList.head? = some '+' then text.toList.drop 1 else text.toList
  (Number.readNat? digits).bind fun width => if width < Nat.pow 2 64 then some width else none

/-- The second positional argument is the name of the artifact, which is judged later. -/
def generateOptions : Options where
  flags := []
  valued :=
    [("sql", isPath), ("prefix", isText), ("eol", fun text => (LineBreak.read? text).isSome),
      ("spaces", fun text => (width? text).isSome),
      ("struct", fun text => (ContainerKind.read? text).isSome)]
  positional := fun place text => place = 1 || isPath text

def generate? (arguments : Arguments) : Option Invocation := do
  match arguments.positional with
  | directory :: name :: files =>
    let directory ← path? directory
    let sources ← sources? arguments files
    let lineBreak ← readValue? arguments "eol" LineBreak.read?
    let width ← readValue? arguments "spaces" width?
    let container ← readValue? arguments "struct" ContainerKind.read?
    let style : Style :=
      { stripped := (arguments.value? "prefix").getD ""
        lineBreak := lineBreak.getD .lf
        indentation := (width.map Indentation.spaces).getD .tab
        container := container.getD .interface }
    some (.generate ⟨directory, name, sources, style⟩)
  | _ => none

def command? (options : Options) (build : Arguments → Option Invocation)
    (arguments : List String) : Option Invocation :=
  match Arguments.scan options .none none arguments with
  | .ok scanned => build scanned
  | .error .helpWanted => some .help
  | .error .rejected => none

/-- Help is asked for on its own or for one command. -/
def help? : List String → Option Invocation
  | [] => some .help
  | [command] => if command ∈ ["check", "generate", "help"] then some .help else none
  | _ => none

def Invocation.read? : List String → Option Invocation
  | [] => none
  | first :: rest =>
    if first = "check" then command? checkOptions check? rest
    else if first = "generate" then command? generateOptions generate? rest
    else if first = "--version" || "-V".toList.isPrefixOf first.toList then some .version
    else if first = "--help" || "-h".toList.isPrefixOf first.toList then some .help
    else if first = "help" then help? rest
    else none

end QueryContract.CommandLine
