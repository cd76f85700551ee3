import QueryContract.Artifact.Method
import QueryContract.Proofs.Artifact.SingleQuoted
import QueryContract.Proofs.Declaration.Reading
import QueryContract.Proofs.Number.Layout

/-!
The default of a parameter, read from the signature as the generated language reads a constant. It
has the value and the type that were declared, save for the least integer: its digits alone are too
large for an integer, and the minus comes too late.
-/

namespace QueryContract.Literal

open Number (Binary64 readNat? digitsValue showInt)

/-- What a constant expression of the generated language stands for. -/
inductive Constant where
  | null
  | bool (value : Bool)
  | int (value : Int)
  | float (value : Binary64)
  | string (value : List Char)
  deriving DecidableEq, Repr

def negateFloat : Binary64 → Binary64
  | .nan => .nan
  | .infinite negative => .infinite !negative
  | .finite negative ordinal => .finite (!negative) ordinal

namespace Constant

/-- The greatest integer of the generated language. -/
def largest : Nat := 9223372036854775807

/-- A literal of decimal digits is an integer if it is not too large for one, else a float. A zero in
    front is the mark of another base. -/
def ofNumeral? (text : List Char) (value : Nat) : Option Constant :=
  if text.head? = some '0' ∧ 1 < text.length then none
  else if value ≤ largest then some (.int value)
  else some (.float (.ofDecimal false value 0))

def readUnsigned? (text : List Char) : Option Constant :=
  match readNat? text with
  | some value => ofNumeral? text value
  | none => (Binary64.readUnsigned? false text).map .float

def negate? : Constant → Option Constant
  | int value => some (.int (-value))
  | float value => some (.float (negateFloat value))
  | _ => none

/-- A minus is an operator before a literal, not a part of it. -/
def readNumber? (text : List Char) : Option Constant :=
  if text.head? = some '-' then (readUnsigned? (text.drop 1)).bind negate? else readUnsigned? text

def read? (text : List Char) : Option Constant :=
  match readSingleQuoted text with
  | some (value, rest) => if rest.isEmpty then some (.string value) else none
  | none =>
    let word := String.ofList (Text.lowercase text)
    if word = "null" then some .null
    else if word = "true" then some (.bool true)
    else if word = "false" then some (.bool false)
    else readNumber? text

end Constant

/-- The constant that a default is declared to be. -/
def constantOf : Fallback → Constant
  | .null => .null
  | .int value => .int value.toInt
  | .float value => .float value
  | .bool value => .bool value
  | .string value => .string value.toList
  | .now => .string "NOW".toList

namespace Constant

theorem read?_singleQuoted (text : String) :
    read? (singleQuoted text).toList = some (.string text.toList) := by
  rw [read?, readSingleQuoted_singleQuoted]
  rfl

theorem readSingleQuoted_of_ne {text : List Char} (h : text.head? ≠ some '\'') :
    readSingleQuoted text = none := by
  rw [readSingleQuoted.eq_def]
  split
  · exact absurd rfl h
  · rfl

/-- A number with or without a minus is neither quoted nor a word. -/
theorem read?_number {text : List Char}
    (front : ∀ c ∈ text.head?, c = '-' ∨ c.isDigit = true ∨ c = '.') :
    read? text = readNumber? text := by
  have quote : text.head? ≠ some '\'' := by
    intro head
    have quote := front '\'' head
    exact absurd quote (by decide)
  have noLetter : ∀ c ∈ text.head?, c.toLower.isLower = false := by
    intro c head
    rcases front c head with rfl | digit | rfl
    · decide
    · exact Binary64.isLower_toLower_of_isDigit digit
    · decide
  have null := Binary64.ofList_lowercase_ne "null" (by decide) noLetter
  have yes := Binary64.ofList_lowercase_ne "true" (by decide) noLetter
  have no := Binary64.ofList_lowercase_ne "false" (by decide) noLetter
  simp only [read?, readSingleQuoted_of_ne quote, null, yes, no, if_false]

/-- A number after a minus or nothing. -/
theorem read?_signed {unsigned : List Char} {constant : Constant}
    (front : ∀ c ∈ unsigned.head?, c.isDigit = true ∨ c = '.')
    (read : readUnsigned? unsigned = some constant) (negative : Bool) :
    read? ((if negative then ['-'] else []) ++ unsigned) =
      if negative then constant.negate? else some constant := by
  cases negative with
  | true =>
    rw [if_pos rfl, if_pos rfl, List.singleton_append, read?_number, readNumber?, List.head?_cons,
      if_pos rfl, List.drop_one, List.tail_cons, read, Option.bind_some]
    intro c head
    cases head
    exact .inl rfl
  | false =>
    have minus : unsigned.head? ≠ some '-' := fun head => absurd (front '-' head) (by decide)
    rw [if_neg Bool.false_ne_true, if_neg Bool.false_ne_true, List.nil_append, read?_number,
      readNumber?, if_neg minus, read]
    exact fun c head => .inr (front c head)

theorem readUnsigned?_toDigits (value : Nat) : readUnsigned? (Nat.toDigits 10 value) =
    if value ≤ largest then some (.int value) else some (.float (.ofDecimal false value 0)) := by
  have numeral := Number.isNumeral_toDigits value
  have read : readNat? (Nat.toDigits 10 value) = some value :=
    Number.readNat?_eq_some_iff.mpr ⟨numeral, (Number.digitsValue_toDigits value).symm⟩
  have front : ¬((Nat.toDigits 10 value).head? = some '0' ∧
      1 < (Nat.toDigits 10 value).length) := by
    rintro ⟨zero, long⟩
    rcases Nat.eq_zero_or_pos value with rfl | positive
    · exact absurd long (by decide)
    · exact Number.head?_toDigits_ne_zero positive zero
  simp only [readUnsigned?, read, ofNumeral?, if_neg front]

theorem negateFloat_ofDecimal (digits : Nat) (exponent : Int) :
    negateFloat (.ofDecimal false digits exponent) = .ofDecimal true digits exponent := by
  rw [Binary64.ofDecimal_eq_ofQuotient, Binary64.ofDecimal_eq_ofQuotient]
  unfold Binary64.ofQuotient
  dsimp only
  split <;> rfl

/-- The text of an integer reads as this integer unless its digits are too large for one. -/
theorem read?_showInt (value : Int) : read? (showInt value).toList =
    if value.natAbs ≤ largest then some (.int value)
    else some (.float (.ofDecimal (value < 0) value.natAbs 0)) := by
  have front : ∀ c ∈ (Nat.toDigits 10 value.natAbs).head?, c.isDigit = true ∨ c = '.' :=
    fun c head =>
      .inl ((Number.isNumeral_toDigits value.natAbs).2 c (List.mem_of_mem_head? head))
  have read := readUnsigned?_toDigits value.natAbs
  rw [Number.toList_showInt]
  by_cases fits : value.natAbs ≤ largest
  · rw [if_pos fits] at read ⊢
    by_cases negative : value < 0
    · rw [if_pos negative]
      have same : -(value.natAbs : Int) = value := by omega
      refine (read?_signed front read true).trans ?_
      rw [if_pos rfl, negate?, same]
    · rw [if_neg negative]
      have same : (value.natAbs : Int) = value := by omega
      refine (read?_signed front read false).trans ?_
      rw [if_neg Bool.false_ne_true, same]
  · rw [if_neg fits] at read ⊢
    by_cases negative : value < 0
    · rw [if_pos negative, decide_eq_true negative, ← negateFloat_ofDecimal]
      exact read?_signed front read true
    · rw [if_neg negative, decide_eq_false negative]
      exact read?_signed front read false

/-- The text of a finite float reads as this float. -/
theorem read?_floatText (layout : Number.Layout) {value : Binary64}
    (finite : value.isFinite = true) : read? (layout.text value).toList = some (.float value) ∧
      ('.' ∈ (layout.text value).toList ∨ 'e' ∈ (layout.text value).toList) := by
  cases value with
  | nan => cases finite
  | infinite negative => cases finite
  | finite negative ordinal =>
    obtain ⟨unsigned, digits, exponent, text, mark, writes, rounds⟩ :=
      Binary64.shows_text layout negative ordinal
    have numeral : readNat? unsigned = none := by
      refine Option.eq_none_iff_forall_ne_some.mpr fun value read => ?_
      obtain ⟨⟨-, all⟩, -⟩ := Number.readNat?_eq_some_iff.mp read
      rcases mark with point | letter
      · exact absurd (all _ point) (by decide)
      · exact absurd (all _ letter) (by decide)
    have read : readUnsigned? unsigned = some (.float (.finite false ordinal)) := by
      rw [readUnsigned?, numeral, ← rounds false]
      dsimp only
      rw [Binary64.readUnsigned?_of_writesUnsigned writes]
      rfl
    rw [text]
    refine ⟨(read?_signed writes.head? read negative).trans ?_,
      mark.imp (List.mem_append_right _) (List.mem_append_right _)⟩
    cases negative with
    | true => rfl
    | false => rfl

theorem natAbs_le_largest_iff (value : Int64) :
    value.toInt.natAbs ≤ largest ↔ value ≠ Int64.minValue := by
  have low := value.le_toInt
  have high := value.toInt_lt
  have least := Int64.toInt_minValue
  rw [ne_eq, ← Int64.toInt_inj, least, largest]
  omega

/-- The literal of a default reads as the value that was declared, save for the least integer. -/
theorem read?_ofValue {scalar : Scalar} {nullable : Bool} {value : Fallback}
    (suits : value.Suits scalar nullable) :
    read? (ofValue value).toList = some (constantOf value) ↔ value ≠ .int Int64.minValue := by
  cases value with
  | null => exact iff_of_true (by decide) nofun
  | int number =>
    rw [ofValue, read?_showInt, ne_eq, Fallback.int.injEq, ← ne_eq, ← natAbs_le_largest_iff]
    split
    · rename_i fits
      exact iff_of_true rfl fits
    · rename_i large
      exact iff_of_false nofun large
  | float number => exact iff_of_true (read?_floatText _ suits.2).1 nofun
  | bool flag => exact iff_of_true (by cases flag <;> decide) nofun
  | string text => exact iff_of_true (read?_singleQuoted text) nofun
  | now => exact iff_of_true (read?_singleQuoted "NOW") nofun

theorem ofValue_eq_null_iff {scalar : Scalar} {nullable : Bool} {value : Fallback}
    (suits : value.Suits scalar nullable) : ofValue value = "null" ↔ value = .null := by
  constructor
  · intro shown
    have least : ofValue (.int Int64.minValue) ≠ "null" := by decide
    have reads := (read?_ofValue suits).mpr (fun same => least (same ▸ shown))
    have null : read? "null".toList = some .null := by decide
    rw [shown, null, Option.some.injEq] at reads
    cases value with
    | null => rfl
    | _ => cases reads
  · rintro rfl
    rfl

end Constant

end QueryContract.Literal

namespace QueryContract.Artifact

open Literal
open Number (showInt)

/-- The literal of a default stands for the value of the default text, `null` apart. -/
def StandsFor (text literal : List Char) : Scalar → Prop
  | .int => ∃ value : Int64, Number.WritesInt text value.toInt ∧
      (Constant.read? literal = some (.int value.toInt) ↔ value ≠ Int64.minValue) ∧
      (value = Int64.minValue → ∃ number, Constant.read? literal = some (.float number))
  | .float => ∃ value, Fallback.Fits .float text (.float value) ∧
      Constant.read? literal = some (.float value) ∧ ('.' ∈ literal ∨ 'e' ∈ literal)
  | .bool => ∃ value, Fallback.Fits .bool text (.bool value) ∧
      literal = (if value then "true" else "false").toList
  | .string => ∃ value, Fallback.Fits .string text (.string value) ∧
      readSingleQuoted literal = some (value.toList, [])
  | .timestamp => ∃ value, (Fallback.Fits .timestamp text (.string value) ∨
      Fallback.Fits .timestamp text .now ∧ value = "NOW") ∧
        readSingleQuoted literal = some (value.toList, [])

theorem standsFor_of_fits {scalar : Scalar} {text : List Char} {value : Fallback}
    (h : Fallback.Fits scalar text value) : StandsFor text (ofValue value).toList scalar := by
  have reads := Constant.read?_ofValue (h.suits false)
  cases h with
  | @int _ number writes =>
    refine ⟨number, writes, ?_, fun least => ?_⟩
    · rw [ne_eq, ← Fallback.int.injEq]
      exact reads
    · have large := mt (Constant.natAbs_le_largest_iff number).mp (not_not.mpr least)
      rw [ofValue, Constant.read?_showInt, if_neg large]
      exact ⟨_, rfl⟩
  | float writes small =>
    exact ⟨_, .float writes small, reads.mpr nofun, (Constant.read?_floatText _
      ((Number.Binary64.isFinite_ofDecimal_iff ..).mpr small)).2⟩
  | truth word => exact ⟨true, .truth word, rfl⟩
  | falsehood word => exact ⟨false, .falsehood word, rfl⟩
  | bare unquoted => exact ⟨_, .bare unquoted, readSingleQuoted_singleQuoted _⟩
  | quoted textual literal =>
    rcases textual with rfl | rfl
    · exact ⟨_, .quoted (.inl rfl) literal, readSingleQuoted_singleQuoted _⟩
    · exact ⟨_, .inl (.quoted (.inr rfl) literal), readSingleQuoted_singleQuoted _⟩
  | now word => exact ⟨"NOW", .inr ⟨.now word, rfl⟩, readSingleQuoted_singleQuoted _⟩

/-- The default of a declaration stands in the signature as a literal of the declared type and value,
    except that the least integer reads as a float. -/
theorem default_stands_in_signature {type text : List Char} {parameter : Parameter}
    (accepted : Declaration.read type (some text) = .ok parameter.declaration) :
    ∃ literal, signature parameter =
        valueText parameter.declaration ++ " $" ++ parameter.name ++ " = " ++ literal ∧
      (literal = "null" ↔ text = "null".toList) ∧
      (text = "null".toList → (valueText parameter.declaration).toList.head? = some '?') ∧
      (text ≠ "null".toList → StandsFor text literal.toList parameter.declaration.scalar) := by
  obtain ⟨-, -, -, -, optional, -, stands⟩ := Declaration.declares_of_read accepted
  obtain ⟨single, value, fallback, default⟩ := stands text rfl
  refine ⟨ofValue value, ?_, ?_, ?_, ?_⟩
  · simp only [signature, fallback, optional, Option.isSome_some, if_true, signatureType, single,
      Bool.false_eq_true, if_false]
  · rw [Constant.ofValue_eq_null_iff default.suits]
    exact default.eq_null_iff
  · intro null
    have nullable := (default.resolve_right fun other => other.1 null).2.1
    rw [valueText, nullable, if_pos rfl, String.toList_append]
    rfl
  · intro other
    exact standsFor_of_fits (default.resolve_left fun null => other null.1).2

theorem default_of_paddedInteger :
    let parameter : Parameter := ⟨"n", ⟨.int, true, false, true, some (.int (-7))⟩, []⟩
    Declaration.read "?INT".toList (some "-007".toList) = .ok parameter.declaration ∧
      ∃ literal, signature parameter = "?int $n = " ++ literal ∧ literal ≠ "null" ∧
        StandsFor "-007".toList literal.toList .int := by
  have accepted : Declaration.read "?INT".toList (some "-007".toList) =
      .ok ⟨.int, true, false, true, some (.int (-7))⟩ := by
    decide +kernel
  obtain ⟨literal, shown, null, -, stands⟩ :=
    @default_stands_in_signature _ _ ⟨"n", _, []⟩ accepted
  have other : "-007".toList ≠ "null".toList := by decide
  exact ⟨accepted, literal, shown, mt null.mp other, stands other⟩

/-- The least integer is accepted, and its literal reads as a float. -/
theorem least_integer_reads_as_float :
    let declaration : Declaration := ⟨.int, false, false, true, some (.int Int64.minValue)⟩
    Declaration.read "int".toList (some "-9223372036854775808".toList) = .ok declaration ∧
      signature ⟨"v", declaration, []⟩ = "int $v = -9223372036854775808" ∧
      Number.WritesInt "-9223372036854775808".toList (-9223372036854775808) ∧
      Constant.read? "-9223372036854775808".toList =
        some (.float (.ofDecimal true 9223372036854775808 0)) := by
  have shown : "-9223372036854775808" = showInt (-9223372036854775808) := by decide +kernel
  have writes := Number.writesInt_showInt (-9223372036854775808)
  have large : ¬(-9223372036854775808 : Int).natAbs ≤ Constant.largest := by decide
  have reads := Constant.read?_showInt (-9223372036854775808)
  rw [if_neg large, ← shown] at reads
  rw [← shown] at writes
  exact ⟨by decide +kernel, by decide +kernel, writes, reads⟩

end QueryContract.Artifact
