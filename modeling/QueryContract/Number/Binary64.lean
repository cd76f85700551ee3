import QueryContract.Number.Decimal

/-!
Double-precision numbers of IEEE 754, as far as declarations can hold and show them: one NaN, two
infinities and the finite numbers with their sign.

A finite magnitude is given by its ordinal, its place among all of them in increasing order. The
ordinal is at the same time the exponent and fraction fields of the encoding. All rounding is done
in exact integer arithmetic on units of `2 ^ -1074`, the least positive magnitude.
-/

namespace QueryContract.Number

/-- The number of finite magnitudes. -/
def magnitudeCount : Nat := 2047 * Nat.pow 2 52

inductive Binary64 where
  | nan
  | infinite (negative : Bool)
  | finite (negative : Bool) (ordinal : Fin magnitudeCount)
  deriving DecidableEq, Repr

namespace Binary64

/-- The units in 1. -/
def unitsInOne : Nat := Nat.pow 2 1074

def significand (ordinal : Nat) : Nat :=
  if ordinal < Nat.pow 2 52 then ordinal else Nat.pow 2 52 + ordinal % Nat.pow 2 52

def units (ordinal : Nat) : Nat := significand ordinal * Nat.pow 2 (ordinal / Nat.pow 2 52 - 1)

/-- The quotient rounded to the nearest integer, a half to the even neighbour. -/
def roundHalfEven (numerator denominator : Nat) : Nat :=
  let quotient := numerator / denominator
  let twice := 2 * (numerator % denominator)
  if twice < denominator then quotient
  else if denominator < twice then quotient + 1
  else quotient + quotient % 2

/-- The ordinal nearest to a quotient, of two the even one. It is `magnitudeCount` or more when the
    quotient rounds beyond the largest finite number. -/
def nearestOrdinal (numerator denominator : Nat) : Nat :=
  let scaled := numerator * unitsInOne
  let whole := scaled / denominator
  let shift := if whole < Nat.pow 2 53 then 0 else Nat.log2 whole - 52
  shift * Nat.pow 2 52 + roundHalfEven scaled (denominator * Nat.pow 2 shift)

def ofQuotient (negative : Bool) (numerator denominator : Nat) : Binary64 :=
  let ordinal := nearestOrdinal numerator denominator
  if h : ordinal < magnitudeCount then .finite negative ⟨ordinal, h⟩ else .infinite negative

def zero (negative : Bool) : Binary64 := .finite negative ⟨0, by decide⟩

def ofInt (value : Int) : Binary64 := ofQuotient (value < 0) value.natAbs 1

/-- `digits · 10 ^ exponent`, correctly rounded. Outside the powers of ten from `-400` to `400` the
    answer is zero or infinite whatever the digits are. -/
def ofDecimal (negative : Bool) (digits : Nat) (exponent : Int) : Binary64 :=
  let places := (Nat.toDigits 10 digits).length + exponent
  if digits = 0 ∨ places < -400 then zero negative
  else if 400 < places then .infinite negative
  else ofQuotient negative (digits * Nat.pow 10 exponent.toNat) (Nat.pow 10 (-exponent).toNat)

def isFinite : Binary64 → Bool
  | finite .. => true
  | _ => false

/-- Equality of numbers: the zeros are equal, and a NaN differs from itself. -/
def sameNumber : Binary64 → Binary64 → Bool
  | finite left i, finite right j => i = j && (left = right || i.val = 0)
  | infinite left, infinite right => left = right
  | _, _ => false

/-- The exponent part of a number text: nothing, or a mark, an optional sign and digits. -/
def readExponent? : List Char → Option Int
  | [] => some 0
  | c :: rest => if c = 'e' ∨ c = 'E' then readInt? rest else none

/-- Digits with an optional point among or around them, then an optional exponent. -/
def readUnsigned? (negative : Bool) (text : List Char) : Option Binary64 :=
  let whole := text.takeWhile Char.isDigit
  let afterWhole := text.dropWhile Char.isDigit
  let afterPoint := if afterWhole.head? = some '.' then afterWhole.drop 1 else []
  let fraction := afterPoint.takeWhile Char.isDigit
  let tail := if afterWhole.head? = some '.' then afterPoint.dropWhile Char.isDigit else afterWhole
  if whole.isEmpty && fraction.isEmpty then none
  else (readExponent? tail).map fun exponent =>
    ofDecimal negative (digitsValue (whole ++ fraction)) (exponent - fraction.length)

/-- A number text with an optional sign. The names of the infinities and of the NaN have any case. -/
def read? (text : List Char) : Option Binary64 :=
  let (negative, unsigned) := splitSign text
  let word := String.ofList (Text.lowercase unsigned)
  if word = "inf" ∨ word = "infinity" then some (.infinite negative)
  else if word = "nan" then some .nan
  else readUnsigned? negative unsigned

end Binary64

end QueryContract.Number
