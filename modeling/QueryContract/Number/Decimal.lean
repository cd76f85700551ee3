import QueryContract.Text.Letters

/-!
Decimal digits and the integers they write.
-/

namespace QueryContract.Number

def digitsValue (digits : List Char) : Nat :=
  digits.foldl (fun value digit => value * 10 + (digit.toNat - 48)) 0

def readNat? (text : List Char) : Option Nat :=
  if text.isEmpty || !text.all Char.isDigit then none else some (digitsValue text)

/-- A leading sign and what follows it: whether the sign is a minus, and the rest. -/
def splitSign : List Char → Bool × List Char
  | '-' :: rest => (true, rest)
  | '+' :: rest => (false, rest)
  | text => (false, text)

def readInt? (text : List Char) : Option Int :=
  let (negative, digits) := splitSign text
  (readNat? digits).map fun (value : Nat) => if negative then -(value : Int) else value

def int64? (value : Int) : Option Int64 :=
  if -(Nat.pow 2 63 : Nat) ≤ value ∧ value < (Nat.pow 2 63 : Nat) then some (Int64.ofInt value)
  else none

def readInt64? (text : List Char) : Option Int64 := (readInt? text).bind int64?

def showNat (value : Nat) : String := String.ofList (Nat.toDigits 10 value)

def showInt (value : Int) : String :=
  if value < 0 then "-" ++ showNat value.natAbs else showNat value.natAbs

end QueryContract.Number
