import QueryContract.Text.Letters

/-!
The style of the generated file: its line ends, its indentation, its container, and how much of the
method names is left out.
-/

namespace QueryContract

inductive LineBreak where
  | lf
  | crlf
  deriving DecidableEq, Repr

namespace LineBreak

def text : LineBreak → String
  | lf => "\n"
  | crlf => "\r\n"

def read? (name : String) : Option LineBreak :=
  match String.ofList (Text.lowercase name.toList) with
  | "lf" => some lf
  | "crlf" => some crlf
  | _ => none

def unknownMessage (name : String) : String := "Invalid EOL option '" ++ name ++ "'"

end LineBreak

inductive Indentation where
  | tab
  | spaces (width : Nat)
  deriving DecidableEq, Repr

def Indentation.text : Indentation → String
  | tab => "\t"
  | spaces width => String.ofList (List.replicate width ' ')

inductive ContainerKind where
  | interface
  | plainClass
  | finalClass
  | abstractClass
  | trait
  deriving DecidableEq, Repr

namespace ContainerKind

def words : ContainerKind → String
  | interface => "interface"
  | plainClass => "class"
  | finalClass => "final class"
  | abstractClass => "abstract class"
  | trait => "trait"

/-- Small letters, with a hyphen for each space and underscore. -/
def normalize (name : String) : String :=
  String.ofList ((Text.lowercase name.toList).map fun c => if c = ' ' ∨ c = '_' then '-' else c)

def read? (name : String) : Option ContainerKind :=
  match normalize name with
  | "interface" => some interface
  | "class" => some plainClass
  | "final-class" | "final" => some finalClass
  | "abstract-class" | "abstract" => some abstractClass
  | "trait" => some trait
  | _ => none

def unknownMessage (name : String) : String :=
  "unknown struct kind `" ++ name
    ++ "`: expected interface, class, final-class, abstract-class or trait"

end ContainerKind

structure Style where
  /-- The word that is left out at the front of method names. -/
  stripped : String
  lineBreak : LineBreak
  indentation : Indentation
  container : ContainerKind
  deriving DecidableEq, Repr

end QueryContract
