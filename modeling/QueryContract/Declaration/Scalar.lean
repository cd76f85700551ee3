import QueryContract.Text.Letters

/-!
The scalar types of variables.
-/

namespace QueryContract

inductive Scalar where
  | string
  | int
  | float
  | bool
  | timestamp
  deriving DecidableEq, Repr

namespace Scalar

def name : Scalar → String
  | string => "string"
  | int => "int"
  | float => "float"
  | bool => "bool"
  | timestamp => "timestamp"

def named? : String → Option Scalar
  | "string" => some string
  | "int" => some int
  | "float" => some float
  | "bool" => some bool
  | "timestamp" => some timestamp
  | _ => none

def read? (text : List Char) : Option Scalar := named? (String.ofList (Text.lowercase text))

def unknownMessage (text : String) : String := "unknown variable type: " ++ text

theorem named?_eq_some_iff (text : String) (scalar : Scalar) :
    named? text = some scalar ↔ text = scalar.name := by
  constructor
  · intro h
    unfold named? at h
    split at h <;> cases h <;> rfl
  · rintro rfl
    cases scalar <;> rfl

end Scalar

end QueryContract
