import QueryContract.Interchange.Json

/-!
JSON numbers. A number without a point and an exponent is exact while it fits into 64 bits.

Any other number is read in two steps, each of them rounded: the leading digits that fit into 64
bits become a double, and that double is multiplied or divided by a power of ten. The answer can
differ from the nearest double in its last digit.
-/

namespace QueryContract.Interchange.JsonNumber

open Number

def digitLimit : Nat := Nat.pow 2 64 - 1

/-- Digits read so far: those that fit, and the power of ten that the others stand for. -/
structure Digits where
  value : Nat
  exponent : Int
  full : Bool

def Digits.fits (digits : Digits) (digit : Char) : Bool :=
  digits.value * 10 + (digit.toNat - 48) ≤ digitLimit

def Digits.take (digits : Digits) (digit : Char) : Digits :=
  { digits with value := digits.value * 10 + (digit.toNat - 48) }

/-- One more digit before the point. Once one did not fit, the later ones count for the exponent. -/
def Digits.addWhole (digits : Digits) (digit : Char) : Digits :=
  if !digits.full && digits.fits digit then digits.take digit
  else { digits with exponent := digits.exponent + 1, full := true }

/-- One more digit after the point. Once one did not fit, the later ones are left out. -/
def Digits.addFraction (digits : Digits) (digit : Char) : Digits :=
  if !digits.full && digits.fits digit then
    { digits.take digit with exponent := digits.exponent - 1 }
  else { digits with full := true }

def readDigits (whole fraction : List Char) : Digits :=
  let before := whole.foldl Digits.addWhole ⟨0, 0, false⟩
  fraction.foldl Digits.addFraction { before with full := false }

/-- The greatest power of ten that one step divides or multiplies by. -/
def greatestPower : Nat := 308

def powerUnits (power : Nat) : Nat :=
  match Binary64.ofQuotient false (Nat.pow 10 power) 1 with
  | .finite _ ordinal => Binary64.units ordinal
  | _ => 0

def timesPower (number : Binary64) (power : Nat) : Binary64 :=
  match number with
  | .finite negative ordinal =>
    .ofQuotient negative (Binary64.units ordinal * powerUnits power)
      (Binary64.unitsInOne * Binary64.unitsInOne)
  | other => other

def overPower (number : Binary64) (power : Nat) : Binary64 :=
  match number with
  | .finite negative ordinal => .ofQuotient negative (Binary64.units ordinal) (powerUnits power)
  | other => other

/-- The significand scaled by a power of ten; none when it is too great. -/
def scale? (negative : Bool) (significand : Nat) (exponent : Int) : Option Binary64 :=
  let start := Binary64.ofQuotient negative significand 1
  let power := exponent.natAbs
  if significand = 0 then some (.zero negative)
  else if 0 ≤ exponent then
    if power ≤ greatestPower ∧ (timesPower start power).isFinite then some (timesPower start power)
    else none
  else if power ≤ greatestPower then some (overPower start power)
  else if power ≤ 2 * greatestPower then
    some (overPower (overPower start greatestPower) (power - greatestPower))
  else some (.zero negative)

/-- A point and at least one digit, or nothing: the digits and what follows them. -/
def readFraction? : List Char → Option (List Char × List Char)
  | '.' :: rest =>
    let digits := rest.takeWhile Char.isDigit
    if digits.isEmpty then none else some (digits, rest.dropWhile Char.isDigit)
  | rest => some ([], rest)

def ofInteger (negative : Bool) (value : Nat) : Option Json :=
  if negative then
    if 0 < value ∧ value ≤ Nat.pow 2 63 then some (.integer (-(value : Int))) else none
  else if value ≤ digitLimit then some (.integer value) else none

def read? (text : List Char) : Option Json := do
  let negative := text.head? = some '-'
  let unsigned := if negative then text.drop 1 else text
  let whole := unsigned.takeWhile Char.isDigit
  let rest := unsigned.dropWhile Char.isDigit
  if whole.isEmpty || (whole.head? = some '0' && 1 < whole.length) then none
  else
    let (fraction, tail) ← readFraction? rest
    let exponent ← Binary64.readExponent? tail
    let digits := readDigits whole fraction
    let real := (scale? negative digits.value (digits.exponent + exponent)).map Json.real
    if rest.isEmpty then (ofInteger negative (digitsValue whole)).or real else real

end QueryContract.Interchange.JsonNumber
