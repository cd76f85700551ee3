import QueryContract.Declaration.Scalar
import QueryContract.Number.Binary64
import QueryContract.Text.Quoted

/-!
Variable declarations: a scalar type, the flags around it and the value of an omitted argument.

A declaration is read from a type text `[list:][?]scalar` and an optional default text. Two
declarations are compared aspect by aspect.
-/

namespace QueryContract

inductive Fallback where
  | null
  | int (value : Int64)
  | float (value : Number.Binary64)
  | bool (value : Bool)
  | string (value : String)
  /-- The time of the call. -/
  | now
  deriving DecidableEq, Repr

/-- Equality of values, with floats compared as numbers. -/
def Fallback.sameValue : Fallback → Fallback → Bool
  | float left, float right => left.sameNumber right
  | left, right => left = right

structure Declaration where
  scalar : Scalar
  nullable : Bool
  list : Bool
  optional : Bool
  fallback : Option Fallback
  deriving DecidableEq, Repr

inductive Aspect where
  | type
  | nullable
  | list
  | optional
  | fallback
  deriving DecidableEq, Repr

namespace Aspect

def name : Aspect → String
  | type => "type"
  | nullable => "nullable"
  | list => "list"
  | optional => "optional"
  | fallback => "defaultValue"

def isShape : Aspect → Bool
  | type | nullable | list => true
  | optional | fallback => false

end Aspect

namespace Declaration

def sameDefault (left right : Declaration) : Bool :=
  match left.fallback, right.fallback with
  | none, none => true
  | some left, some right => left.sameValue right
  | _, _ => false

def agreesOn (left right : Declaration) : Aspect → Bool
  | .type => left.scalar = right.scalar
  | .nullable => left.nullable = right.nullable
  | .list => left.list = right.list
  | .optional => left.optional = right.optional
  | .fallback => left.sameDefault right

/-- The aspects on which two declarations differ, in the order of a declaration. -/
def difference (left right : Declaration) : List Aspect :=
  [.type, .nullable, .list, .optional, .fallback].filter fun aspect =>
    !left.agreesOn right aspect

def shapeDifference (left right : Declaration) : List Aspect :=
  (left.difference right).filter Aspect.isShape

end Declaration

def differenceText : List Aspect → String
  | [] => "same"
  | [aspect] => aspect.name
  | aspects => "multiple: " ++ ", ".intercalate (aspects.map Aspect.name)

inductive VariableFault where
  | unknownType (text : String)
  | listDefault
  | nullDefault (scalar : Scalar)
  | invalidDefault (scalar : Scalar) (text : String)
  | unquotedTimestamp (text : String)
  | quoted (text : String) (fault : Text.Quoted.Fault)
  deriving DecidableEq, Repr

def VariableFault.message : VariableFault → String
  | unknownType text => Scalar.unknownMessage text
  | listDefault => "list variables cannot have a default value"
  | nullDefault scalar => "`null` default requires a nullable type, got `" ++ scalar.name ++ "`"
  | invalidDefault scalar text => "invalid " ++ scalar.name ++ " default `" ++ text ++ "`"
  | unquotedTimestamp text =>
    "invalid timestamp default `" ++ text ++ "`: expected NOW or a quoted string"
  | quoted text fault =>
    "invalid string literal " ++ text ++ ": " ++ fault.message text.toList

namespace Fallback

def readBool? (text : List Char) : Option Bool :=
  let word := String.ofList (Text.lowercase text)
  if word ∈ ["true", "on", "yes", "1"] then some true
  else if word ∈ ["false", "off", "no", "0"] then some false
  else none

def readQuoted (text : List Char) : Except VariableFault Fallback :=
  match Text.Quoted.read text with
  | .ok value => .ok (.string (String.ofList value))
  | .error fault => .error (.quoted (String.ofList text) fault)

def isQuoted (text : List Char) : Bool := text.head? = some '"'

/-- A default other than `null`, in the form that its scalar type asks for. -/
def readScalar (scalar : Scalar) (text : List Char) : Except VariableFault Fallback :=
  let invalid := .error (.invalidDefault scalar (String.ofList text))
  match scalar with
  | .int => ((Number.readInt64? text).map fun value => .ok (.int value)).getD invalid
  | .float =>
    match Number.Binary64.read? text with
    | some value => if value.isFinite then .ok (.float value) else invalid
    | none => invalid
  | .bool => ((readBool? text).map fun value => .ok (.bool value)).getD invalid
  | .string => if isQuoted text then readQuoted text else .ok (.string (String.ofList text))
  | .timestamp =>
    if Text.sameIgnoringCase text "now".toList then .ok .now
    else if isQuoted text then readQuoted text
    else .error (.unquotedTimestamp (String.ofList text))

def read (scalar : Scalar) (nullable : Bool) (text : List Char) :
    Except VariableFault Fallback :=
  if text = "null".toList then if nullable then .ok .null else .error (.nullDefault scalar)
  else readScalar scalar text

end Fallback

def splitMark (mark text : List Char) : Bool × List Char :=
  match mark.isPrefixOf? text with
  | some rest => (true, rest)
  | none => (false, text)

namespace Declaration

/-- A declaration from its type text and its default text. With a default the variable is
    optional. -/
def read (type : List Char) (default? : Option (List Char)) : Except VariableFault Declaration :=
  let (list, unlisted) := splitMark "list:".toList type
  let (nullable, name) := splitMark ['?'] unlisted
  match Scalar.read? name with
  | none => .error (.unknownType (String.ofList name))
  | some scalar =>
    match default? with
    | none => .ok ⟨scalar, nullable, list, false, none⟩
    | some text =>
      if list then .error .listDefault
      else
        match Fallback.read scalar nullable text with
        | .ok value => .ok ⟨scalar, nullable, list, true, some value⟩
        | .error fault => .error fault

end Declaration

end QueryContract
