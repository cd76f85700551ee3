import QueryContract.Contract.Entry
import QueryContract.Contract.Notice

/-!
Parameters of one operation. The base variant fixes them; each later variant is compared with the
base alone, and a difference in shape is a conflict.
-/

namespace QueryContract

structure Conflict where
  operation : String
  parameter : String
  basePath : Path
  variantPath : Path
  aspects : List Aspect
  deriving DecidableEq, Repr

def Conflict.message (conflict : Conflict) : String :=
  "Conflict: " ++ conflict.operation ++ " :" ++ conflict.parameter
    ++ " have different declarations ("
    ++ ", ".intercalate (conflict.aspects.map Aspect.name) ++ ") in "
    ++ conflict.basePath.text ++ " and " ++ conflict.variantPath.text

/-- Whether a variable is optional, for each file that declares it. -/
abbrev Optionality := List (Path × Bool)

structure Parameter where
  name : String
  declaration : Declaration
  optionality : Optionality
  deriving DecidableEq, Repr

structure Parameters where
  canonical : List Parameter
  /-- The variables that only later variants declare. -/
  additional : Association String Optionality
  deriving DecidableEq, Repr

namespace Parameters

def names (parameters : Parameters) : List String := parameters.canonical.map Parameter.name

def ofBase (base : Statement) : Parameters where
  canonical := base.declarations.pairs.map fun (name, declaration) =>
    ⟨name, declaration, [(base.file, declaration.optional)]⟩
  additional := .empty

/-- Puts the optionality that a file gives, in place of the one from the same file. -/
def putFile (file : Path) (optional : Bool) : Optionality → Optionality
  | [] => [(file, optional)]
  | (known, value) :: rest =>
    if known.same file then (known, optional) :: rest
    else (known, value) :: putFile file optional rest

def compareParameter (operation : String) (base other : Statement) (parameter : Parameter) :
    Recording Conflict Parameter := do
  match other.declaration? parameter.name with
  | none =>
    notify (.absentFromVariant operation parameter.name base.file other.file)
    pure parameter
  | some declaration =>
    let differing := parameter.declaration.shapeDifference declaration
    if !differing.isEmpty then
      throw ⟨operation, parameter.name, base.file, other.file, differing⟩
    if parameter.declaration.optional != declaration.optional then
      notify (.driftingOptionality operation parameter.name base.file parameter.declaration.optional
        other.file)
    pure { parameter with
      optionality := putFile other.file declaration.optional parameter.optionality }

/-- Adds one variable that the base may lack to the additional ones. -/
def addAdditional (operation : String) (base other : Statement)
    (additional : Association String Optionality) (declared : String × Declaration) :
    Recording Conflict (Association String Optionality) := do
  let (name, declaration) := declared
  if (base.declaration? name).isSome then pure additional
  else
    notify (.onlyInVariant operation name declaration.optional other.file base.file)
    let known := (additional.get? name).getD []
    pure (additional.put name (putFile other.file declaration.optional known))

def addVariant (operation : String) (base : Statement) (parameters : Parameters)
    (other : Statement) : Recording Conflict Parameters := do
  let canonical ← parameters.canonical.mapM (compareParameter operation base other)
  let additional ←
    other.declarations.pairs.foldlM (addAdditional operation base other) parameters.additional
  pure ⟨canonical, additional⟩

def ofEntry (entry : Entry) : Recording Conflict Parameters :=
  entry.others.foldlM (addVariant entry.name entry.base) (ofBase entry.base)

end Parameters

end QueryContract
