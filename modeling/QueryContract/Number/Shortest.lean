import QueryContract.Number.Binary64

/-!
Number text: the fewest digits that read back to the same double, and where the point, the zeros and
the exponent stand around them.
-/

namespace QueryContract.Number

structure Decimal where
  digits : Nat
  exponent : Int
  deriving DecidableEq, Repr

structure Layout where
  /-- The least exponent of the leading digit that is written without an exponent part. -/
  lowest : Int
  /-- The greatest such exponent. -/
  highest : Int
  /-- Whether a number midway between two candidates takes the upper one; otherwise the even one. -/
  tiesUp : Bool
  /-- Whether a positive exponent has a plus sign. -/
  signed : Bool

namespace Binary64

/-- The exponent `e` with `10 ^ (e - 1) ≤ x < 10 ^ e`, for a positive magnitude `x`. -/
def decimalPlaces (ordinal : Nat) : Int :=
  let value := units ordinal
  if unitsInOne ≤ value then (Nat.toDigits 10 (value / unitsInOne)).length
  else
    let size := (Nat.toDigits 10 (unitsInOne / value)).length
    if unitsInOne ≤ value * Nat.pow 10 (size - 1) then 2 - (size : Int) else 1 - (size : Int)

def readsBack (ordinal : Nat) (candidate : Decimal) : Bool :=
  match ofDecimal false candidate.digits candidate.exponent with
  | .finite _ read => read.val = ordinal
  | _ => false

/-- The two multiples of `10 ^ exponent` around a magnitude, the nearer first. -/
def neighbours (tiesUp : Bool) (ordinal : Nat) (exponent : Int) : Decimal × Decimal :=
  let numerator := units ordinal * Nat.pow 10 (-exponent).toNat
  let denominator := unitsInOne * Nat.pow 10 exponent.toNat
  let below := numerator / denominator
  let twice := 2 * (numerator % denominator)
  let up := twice > denominator || (twice = denominator && (tiesUp || below % 2 = 1))
  if up then (⟨below + 1, exponent⟩, ⟨below, exponent⟩) else (⟨below, exponent⟩, ⟨below + 1, exponent⟩)

/-- The nearest of the neighbours with `count` digits that reads back, else the same with one digit
    more. Seventeen digits always read back. -/
def shortestFrom (tiesUp : Bool) (ordinal : Nat) (places : Int) (count : Nat) : Nat → Decimal
  | 0 => (neighbours tiesUp ordinal (places - count)).1
  | more + 1 =>
    let (near, far) := neighbours tiesUp ordinal (places - count)
    if readsBack ordinal near then near
    else if readsBack ordinal far then far
    else shortestFrom tiesUp ordinal places (count + 1) more

def shortest (tiesUp : Bool) (ordinal : Nat) : Decimal :=
  shortestFrom tiesUp ordinal (decimalPlaces ordinal) 1 16

end Binary64

def zeros (count : Nat) : String := String.ofList (List.replicate count '0')

def Layout.place (layout : Layout) (number : Decimal) : String :=
  let written := Nat.toDigits 10 number.digits
  let lead : Int := written.length - 1 + number.exponent
  let digits := (written.reverse.dropWhile (· == '0')).reverse
  if layout.lowest ≤ lead ∧ lead ≤ layout.highest then
    if lead < 0 then "0." ++ zeros (-lead - 1).toNat ++ String.ofList digits
    else
      let before := lead.toNat + 1
      let fraction := if digits.length ≤ before then ['0'] else digits.drop before
      String.ofList (digits.take before) ++ zeros (before - digits.length) ++ "."
        ++ String.ofList fraction
  else
    let fraction := if digits.length ≤ 1 then "" else "." ++ String.ofList (digits.drop 1)
    let sign := if layout.signed && 0 ≤ lead then "+" else ""
    String.ofList (digits.take 1) ++ fraction ++ "e" ++ sign ++ showInt lead

def Layout.text (layout : Layout) : Binary64 → String
  | .nan => "NaN"
  | .infinite negative => if negative then "-inf" else "inf"
  | .finite negative ordinal =>
    let sign := if negative then "-" else ""
    if ordinal.val = 0 then sign ++ "0.0"
    else sign ++ layout.place (Binary64.shortest layout.tiesUp ordinal)

end QueryContract.Number
