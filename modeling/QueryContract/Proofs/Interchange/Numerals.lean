import Mathlib.Data.List.TakeWhile
import QueryContract.Proofs.Interchange.Tokens
import QueryContract.Proofs.Number.Digits
import QueryContract.Proofs.Text.Ascii

/-!
Numbers in JSON text. What reads as a number is one word, and an integer of at most 64 bits reads
back as itself.
-/

namespace QueryContract

namespace Interchange.JsonNumber

open Number

/-- A digit, a sign, a point or the mark of an exponent. -/
def isNumberPart (c : Char) : Bool := c.isDigit || "+-.eE".toList.contains c

theorem isNumberPart_of_isDigit {c : Char} (h : c.isDigit = true) : isNumberPart c = true := by
  rw [isNumberPart, h, Bool.true_or]

theorem isBreak_eq_false_of_isNumberPart {c : Char} (h : isNumberPart c = true) :
    Token.isBreak c = false := by
  rcases Bool.or_eq_true_iff.mp h with digit | sign
  · exact Text.alphanum_cases (p := fun c => c.isDigit = true → Token.isBreak c = false) (by decide)
      (Text.isAlphanum_of_isDigit digit) digit
  · have all : ("+-.eE".toList.all fun c => !Token.isBreak c) = true := by decide
    simpa using List.all_eq_true.mp all c (List.contains_iff_mem.mp sign)

theorem isNumberPart_of_readInt? {text : List Char} {value : Int} (h : readInt? text = some value) :
    ∀ c ∈ text, isNumberPart c = true := by
  have digits {text : List Char} {value : Nat} (h : readNat? text = some value) :
      ∀ c ∈ text, isNumberPart c = true := by
    rw [readNat?] at h
    split at h
    · cases h
    · rename_i valid
      simp only [Bool.not_eq_true, Bool.or_eq_false_iff, Bool.not_eq_false',
        List.all_eq_true] at valid
      exact fun c member => isNumberPart_of_isDigit (valid.2 c member)
  obtain ⟨number, read, -⟩ := Option.map_eq_some_iff.mp h
  split at read
  · exact List.forall_mem_cons.mpr ⟨by decide, digits read⟩
  · exact List.forall_mem_cons.mpr ⟨by decide, digits read⟩
  · exact digits read

theorem isNumberPart_of_readExponent? {text : List Char} {exponent : Int}
    (h : Binary64.readExponent? text = some exponent) : ∀ c ∈ text, isNumberPart c = true := by
  cases text with
  | nil => exact nofun
  | cons c rest =>
    rw [Binary64.readExponent?] at h
    split at h
    · rename_i mark
      have part : isNumberPart c = true := by rcases mark with rfl | rfl <;> decide
      exact List.forall_mem_cons.mpr ⟨part, isNumberPart_of_readInt? h⟩
    · cases h

theorem isNumberPart_of_readFraction? {text fraction tail : List Char}
    (h : readFraction? text = some (fraction, tail))
    (later : ∀ c ∈ tail, isNumberPart c = true) : ∀ c ∈ text, isNumberPart c = true := by
  unfold readFraction? at h
  split at h
  · rename_i rest
    simp only [Option.ite_none_left_eq_some, Option.some.injEq, Prod.mk.injEq] at h
    obtain ⟨-, rfl, rfl⟩ := h
    refine List.forall_mem_cons.mpr ⟨by decide, ?_⟩
    rw [← List.takeWhile_append_dropWhile (p := Char.isDigit) (l := rest)]
    exact List.forall_mem_append.mpr
      ⟨fun c member => isNumberPart_of_isDigit (List.mem_takeWhile_imp member), later⟩
  · cases h
    exact later

/-- A number whose sign is known. -/
def readUnsigned? (negative : Bool) (unsigned : List Char) : Option Json :=
  let whole := unsigned.takeWhile Char.isDigit
  let rest := unsigned.dropWhile Char.isDigit
  if whole.isEmpty || (whole.head? = some '0' && 1 < whole.length) then none
  else
    (readFraction? rest).bind fun parts =>
      (Binary64.readExponent? parts.2).bind fun exponent =>
        let digits := readDigits whole parts.1
        let real := (scale? negative digits.value (digits.exponent + exponent)).map Json.real
        if rest.isEmpty then (ofInteger negative (digitsValue whole)).or real else real

theorem read?_eq (text : List Char) :
    read? text =
      readUnsigned? (text.head? = some '-')
        (if text.head? = some '-' then text.drop 1 else text) := rfl

theorem read?_of_ne_minus {text : List Char} (h : text.head? ≠ some '-') :
    read? text = readUnsigned? false text := by
  rw [read?_eq, if_neg h, decide_eq_false h]

theorem isNumberPart_of_readUnsigned? {negative : Bool} {unsigned : List Char} {json : Json}
    (h : readUnsigned? negative unsigned = some json) :
    ∀ c ∈ unsigned, isNumberPart c = true := by
  simp only [readUnsigned?, Option.ite_none_left_eq_some, Option.bind_eq_some_iff] at h
  obtain ⟨-, ⟨fraction, tail⟩, fractioned, exponent, scaled, -⟩ := h
  rw [← List.takeWhile_append_dropWhile (p := Char.isDigit) (l := unsigned)]
  exact List.forall_mem_append.mpr
    ⟨fun c member => isNumberPart_of_isDigit (List.mem_takeWhile_imp member),
      isNumberPart_of_readFraction? fractioned (isNumberPart_of_readExponent? scaled)⟩

/-- A number has no character at which a word ends. -/
theorem isNumberPart_of_read? {text : List Char} {json : Json} (h : read? text = some json) :
    ∀ c ∈ text, isNumberPart c = true := by
  by_cases minus : text.head? = some '-'
  · obtain ⟨rest, rfl⟩ := List.head?_eq_some_iff.mp minus
    exact List.forall_mem_cons.mpr ⟨by decide, isNumberPart_of_readUnsigned? h⟩
  · rw [read?_of_ne_minus minus] at h
    exact isNumberPart_of_readUnsigned? h

theorem readUnsigned?_toDigits {negative : Bool} {value : Nat} {json : Json}
    (fits : ofInteger negative value = some json) :
    readUnsigned? negative (Nat.toDigits 10 value) = some json := by
  have digits : ∀ c ∈ Nat.toDigits 10 value, c.isDigit = true := fun c member =>
    Nat.isDigit_of_mem_toDigits (by decide) (by decide) member
  have whole : (Nat.toDigits 10 value).takeWhile Char.isDigit = Nat.toDigits 10 value :=
    List.takeWhile_eq_self_iff.mpr digits
  have rest : (Nat.toDigits 10 value).dropWhile Char.isDigit = [] :=
    List.dropWhile_eq_nil_iff.mpr digits
  have regular : ((Nat.toDigits 10 value).isEmpty || ((Nat.toDigits 10 value).head? = some '0' &&
      1 < (Nat.toDigits 10 value).length : Bool)) = false := by
    rcases Nat.eq_zero_or_pos value with rfl | positive
    · decide
    · simp [head?_toDigits_ne_zero positive, Nat.toDigits_ne_nil]
  simp only [readUnsigned?, whole, rest, regular, digitsValue_toDigits, fits]
  rfl

theorem read?_showInt {value : Int} (low : -(Nat.pow 2 63 : Nat) ≤ value)
    (high : value < Nat.pow 2 64) : read? (showInt value).toList = some (.integer value) := by
  have limit : digitLimit = Nat.pow 2 64 - 1 := rfl
  rw [showInt]
  split
  · rename_i negative
    have minus : "-".toList = ['-'] := by decide
    have fits : ofInteger true value.natAbs = some (.integer value) := by
      have same : -(value.natAbs : Int) = value := by omega
      rw [ofInteger, if_pos rfl, if_pos (by omega), same]
    rw [String.toList_append, minus, showNat, String.toList_ofList]
    exact readUnsigned?_toDigits fits
  · rename_i positive
    have fits : ofInteger false value.natAbs = some (.integer value) := by
      have same : (value.natAbs : Int) = value := by omega
      rw [ofInteger, if_neg Bool.false_ne_true, if_pos (by omega), same]
    rw [showNat, String.toList_ofList, read?_of_ne_minus (head?_toDigits_ne_minus _)]
    exact readUnsigned?_toDigits fits

end Interchange.JsonNumber

end QueryContract
