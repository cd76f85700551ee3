import QueryContract.Number.Binary64
import QueryContract.Proofs.Grammar.VariableLines
import QueryContract.Proofs.Number.Rounding

/-!
Number texts: what is read as an integer or as a finite double, and with which value.
-/

namespace QueryContract.Number

variable {text sign digits rest : List Char} {negative : Bool}

def IsNumeral (digits : List Char) : Prop := digits ≠ [] ∧ ∀ c ∈ digits, c.isDigit = true

theorem readNat?_eq_some_iff {value : Nat} :
    readNat? text = some value ↔ IsNumeral text ∧ value = digitsValue text := by
  rw [readNat?, Option.ite_none_left_eq_some, Option.some.injEq, Bool.not_eq_true,
    Bool.or_eq_false_iff, Bool.not_eq_false', List.isEmpty_eq_false_iff, List.all_eq_true, IsNumeral,
    eq_comm (a := value)]

/-- An optional sign, and whether it is a minus. -/
inductive IsSign : List Char → Bool → Prop
  | none : IsSign [] false
  | plus : IsSign ['+'] false
  | minus : IsSign ['-'] true

/-- At the front of a text that has no sign. -/
def Unsigned (text : List Char) : Prop := ∀ c ∈ text.head?, c ≠ '-' ∧ c ≠ '+'

theorem ne_sign_of_isDigit {c : Char} (h : c.isDigit = true) : c ≠ '-' ∧ c ≠ '+' := by
  constructor <;>
  · rintro rfl
    exact absurd h (by decide)

theorem IsSign.exists_splitSign (text : List Char) :
    ∃ sign, IsSign sign (splitSign text).1 ∧ text = sign ++ (splitSign text).2 := by
  rw [splitSign.eq_def]
  split
  · exact ⟨['-'], .minus, rfl⟩
  · exact ⟨['+'], .plus, rfl⟩
  · exact ⟨[], .none, rfl⟩

theorem IsSign.splitSign_append (h : IsSign sign negative) (unsigned : Unsigned rest) :
    splitSign (sign ++ rest) = (negative, rest) := by
  cases h with
  | none =>
    rw [List.nil_append, splitSign.eq_def]
    split
    · exact absurd rfl (unsigned _ rfl).1
    · exact absurd rfl (unsigned _ rfl).2
    · rfl
  | plus => rfl
  | minus => rfl

def signed (negative : Bool) (value : Nat) : Int := if negative then -(value : Int) else value

/-- Decimal digits after an optional sign. -/
def WritesInt (text : List Char) (value : Int) : Prop :=
  ∃ sign negative digits, IsSign sign negative ∧ IsNumeral digits ∧ text = sign ++ digits ∧
    value = signed negative (digitsValue digits)

theorem IsNumeral.unsigned (h : IsNumeral digits) : Unsigned digits := fun c head =>
  ne_sign_of_isDigit (h.2 c (List.mem_of_mem_head? head))

theorem readInt?_eq_some_iff {value : Int} :
    readInt? text = some value ↔ WritesInt text value := by
  have unfolded : readInt? text =
      (readNat? (splitSign text).2).map (signed (splitSign text).1) := rfl
  rw [unfolded, Option.map_eq_some_iff]
  constructor
  · rintro ⟨magnitude, read, rfl⟩
    obtain ⟨sign, signs, parts⟩ := IsSign.exists_splitSign text
    obtain ⟨numeral, rfl⟩ := readNat?_eq_some_iff.mp read
    exact ⟨sign, _, _, signs, numeral, parts, rfl⟩
  · rintro ⟨sign, negative, digits, signs, numeral, rfl, rfl⟩
    rw [signs.splitSign_append numeral.unsigned]
    exact ⟨digitsValue digits, readNat?_eq_some_iff.mpr ⟨numeral, rfl⟩, rfl⟩

theorem readInt64?_eq_some_iff {value : Int64} :
    readInt64? text = some value ↔ WritesInt text value.toInt := by
  rw [readInt64?, Option.bind_eq_some_iff]
  constructor
  · rintro ⟨number, read, fits⟩
    rw [int64?, Option.ite_none_right_eq_some, Option.some.injEq] at fits
    obtain ⟨⟨low, high⟩, rfl⟩ := fits
    rw [Int64.toInt_ofInt_of_le low high]
    exact readInt?_eq_some_iff.mp read
  · intro writes
    refine ⟨value.toInt, readInt?_eq_some_iff.mpr writes, ?_⟩
    rw [int64?, if_pos ⟨value.le_toInt, value.toInt_lt⟩, Int64.ofInt_toInt]

namespace Binary64

/-- The part after the whole digits: nothing, or a point and any number of digits. -/
inductive IsFraction : List Char → List Char → Prop
  | none : IsFraction [] []
  | point {digits : List Char} (all : ∀ c ∈ digits, c.isDigit = true) :
      IsFraction ('.' :: digits) digits

/-- The exponent part: nothing, or a mark and an integer. -/
inductive IsExponent : List Char → Int → Prop
  | none : IsExponent [] 0
  | mark {c : Char} {text : List Char} {value : Int} (letter : c = 'e' ∨ c = 'E')
      (writes : WritesInt text value) : IsExponent (c :: text) value

/-- The text of `digits · 10 ^ exponent`: digits with an optional point among or around them, then an
    optional exponent part. -/
def WritesUnsigned (text : List Char) (digits : Nat) (exponent : Int) : Prop :=
  ∃ whole point fraction tail power, (∀ c ∈ whole, c.isDigit = true) ∧ IsFraction point fraction ∧
    IsExponent tail power ∧ whole ++ fraction ≠ [] ∧ text = whole ++ (point ++ tail) ∧
      digits = digitsValue (whole ++ fraction) ∧ exponent = power - fraction.length

/-- The same with a sign. -/
def WritesFloat (text : List Char) (negative : Bool) (digits : Nat) (exponent : Int) : Prop :=
  ∃ sign unsigned, IsSign sign negative ∧ WritesUnsigned unsigned digits exponent ∧
    text = sign ++ unsigned

theorem readExponent?_eq_some_iff {value : Int} :
    readExponent? text = some value ↔ IsExponent text value := by
  constructor
  · intro h
    cases text with
    | nil =>
      cases h
      exact .none
    | cons c rest =>
      rw [readExponent?, Option.ite_none_right_eq_some] at h
      exact .mark h.1 (readInt?_eq_some_iff.mp h.2)
  · intro h
    cases h with
    | none => rfl
    | mark letter writes =>
      rw [readExponent?, if_pos letter]
      exact readInt?_eq_some_iff.mpr writes

theorem IsExponent.ne_isDigit {tail : List Char} {power : Int} (h : IsExponent tail power) :
    ∀ c ∈ tail.head?, c.isDigit = false ∧ c ≠ '.' := by
  cases h with
  | none => exact nofun
  | mark letter _ =>
    intro c head
    cases head
    rcases letter with rfl | rfl <;> decide

/-- What follows a run of digits, cut into a fraction and a tail. -/
def splitFraction (afterWhole : List Char) : List Char × List Char :=
  let afterPoint := if afterWhole.head? = some '.' then afterWhole.drop 1 else []
  (afterPoint.takeWhile Char.isDigit,
    if afterWhole.head? = some '.' then afterPoint.dropWhile Char.isDigit else afterWhole)

theorem exists_of_splitFraction (afterWhole : List Char) :
    ∃ point, IsFraction point (splitFraction afterWhole).1 ∧
      afterWhole = point ++ (splitFraction afterWhole).2 := by
  by_cases pointed : afterWhole.head? = some '.'
  · obtain ⟨rest, rfl⟩ := List.head?_eq_some_iff.mp pointed
    refine ⟨'.' :: rest.takeWhile Char.isDigit,
      .point fun c member => List.mem_takeWhile_imp member, ?_⟩
    exact congrArg ('.' :: ·) List.takeWhile_append_dropWhile.symm
  · simp only [splitFraction, if_neg pointed]
    exact ⟨[], .none, rfl⟩

theorem IsFraction.splitFraction_append {point fraction tail : List Char} {power : Int}
    (h : IsFraction point fraction) (h' : IsExponent tail power) :
    splitFraction (point ++ tail) = (fraction, tail) := by
  cases h with
  | none =>
    have unpointed : tail.head? ≠ some '.' := fun head => (h'.ne_isDigit _ head).2 rfl
    simp only [splitFraction, List.nil_append, if_neg unpointed]
    rfl
  | point all =>
    have stop : ∀ c ∈ tail.head?, c.isDigit = false := fun c head => (h'.ne_isDigit c head).1
    rw [splitFraction, List.cons_append, List.head?_cons, if_pos rfl, if_pos rfl, List.drop_one,
      List.tail_cons, takeWhile_append_of_stop all stop, dropWhile_append_of_stop all stop]

theorem readUnsigned?_eq (negative : Bool) (text : List Char) : readUnsigned? negative text =
    let whole := text.takeWhile Char.isDigit
    let parts := splitFraction (text.dropWhile Char.isDigit)
    if whole.isEmpty && parts.1.isEmpty then none
    else (readExponent? parts.2).map fun exponent =>
      ofDecimal negative (digitsValue (whole ++ parts.1)) (exponent - parts.1.length) := rfl

theorem isEmpty_and_isEmpty_iff (left right : List Char) :
    (left.isEmpty && right.isEmpty) = true ↔ left ++ right = [] := by
  rw [Bool.and_eq_true, List.isEmpty_iff, List.isEmpty_iff, List.append_eq_nil_iff]

theorem readUnsigned?_of_writesUnsigned {digits : Nat} {exponent : Int}
    (h : WritesUnsigned text digits exponent) (negative : Bool) :
    readUnsigned? negative text = some (ofDecimal negative digits exponent) := by
  obtain ⟨whole, point, fraction, tail, power, all, fractional, exponential, filled, rfl, rfl, rfl⟩ :=
    h
  have stop : ∀ c ∈ (point ++ tail).head?, c.isDigit = false := by
    cases fractional with
    | none => exact fun c head => (exponential.ne_isDigit c head).1
    | point _ =>
      intro c head
      cases head
      decide
  have nonempty : ¬(whole.isEmpty && fraction.isEmpty) = true := by
    rwa [isEmpty_and_isEmpty_iff]
  rw [readUnsigned?_eq, takeWhile_append_of_stop all stop, dropWhile_append_of_stop all stop,
    fractional.splitFraction_append exponential]
  simp only [if_neg nonempty, readExponent?_eq_some_iff.mpr exponential, Option.map_some]

theorem writesUnsigned_of_readUnsigned? {value : Binary64}
    (read : readUnsigned? negative text = some value) : ∃ digits exponent,
      WritesUnsigned text digits exponent ∧ value = ofDecimal negative digits exponent := by
  rw [readUnsigned?_eq, Option.ite_none_left_eq_some] at read
  obtain ⟨filled, read⟩ := read
  obtain ⟨power, exponential, rfl⟩ := Option.map_eq_some_iff.mp read
  obtain ⟨point, fractional, rest⟩ := exists_of_splitFraction (text.dropWhile Char.isDigit)
  rw [isEmpty_and_isEmpty_iff] at filled
  refine ⟨_, _, ⟨_, point, _, _, power, fun c member => List.mem_takeWhile_imp member, fractional,
    readExponent?_eq_some_iff.mp exponential, filled, ?_, rfl, rfl⟩, rfl⟩
  rw [← rest, List.takeWhile_append_dropWhile]

/-- A number starts with a digit or the point. -/
theorem WritesUnsigned.head? {digits : Nat} {exponent : Int}
    (h : WritesUnsigned text digits exponent) :
    ∀ c ∈ text.head?, c.isDigit = true ∨ c = '.' := by
  obtain ⟨whole, point, fraction, tail, power, all, fractional, -, filled, rfl, -⟩ := h
  intro c head
  cases whole with
  | cons first others =>
    cases head
    exact .inl (all c List.mem_cons_self)
  | nil =>
    cases fractional with
    | none => exact absurd rfl filled
    | point _ =>
      cases head
      exact .inr rfl

theorem isLower_toLower_of_isDigit {c : Char} (h : c.isDigit = true) : c.toLower.isLower = false :=
  Text.alphanum_cases (p := fun c => c.isDigit = true → c.toLower.isLower = false) (by decide)
    (Text.isAlphanum_of_isDigit h) h

/-- A text that starts with no letter is no word in any case. -/
theorem ofList_lowercase_ne (word : String) (letter : word.toList.head?.any Char.isLower = true)
    (h : ∀ c ∈ text.head?, c.toLower.isLower = false) :
    String.ofList (Text.lowercase text) ≠ word := by
  rintro rfl
  rw [String.toList_ofList] at letter
  cases text with
  | nil => cases letter
  | cons c rest => exact Bool.false_ne_true ((h c rfl).symm.trans letter)

theorem read?_of_writesFloat {digits : Nat} {exponent : Int}
    (h : WritesFloat text negative digits exponent) :
    read? text = some (ofDecimal negative digits exponent) := by
  obtain ⟨sign, unsigned, signs, writes, rfl⟩ := h
  have plain : Unsigned unsigned := by
    intro c head
    rcases writes.head? c head with digit | rfl
    · exact ne_sign_of_isDigit digit
    · decide
  have noLetter : ∀ c ∈ unsigned.head?, c.toLower.isLower = false := by
    intro c head
    rcases writes.head? c head with digit | rfl
    · exact isLower_toLower_of_isDigit digit
    · decide
  have inf := ofList_lowercase_ne "inf" (by decide) noLetter
  have infinity := ofList_lowercase_ne "infinity" (by decide) noLetter
  have nan := ofList_lowercase_ne "nan" (by decide) noLetter
  simp only [read?, signs.splitSign_append plain, inf, infinity, nan, or_self, if_false]
  exact readUnsigned?_of_writesUnsigned writes negative

theorem writesFloat_of_read? {value : Binary64} (read : read? text = some value)
    (finite : value.isFinite = true) : ∃ negative digits exponent,
      WritesFloat text negative digits exponent ∧ value = ofDecimal negative digits exponent := by
  obtain ⟨sign, signs, parts⟩ := IsSign.exists_splitSign text
  simp only [read?] at read
  split at read
  · cases read
    cases finite
  split at read
  · cases read
    cases finite
  obtain ⟨digits, exponent, writes, rfl⟩ := writesUnsigned_of_readUnsigned? read
  exact ⟨_, digits, exponent, ⟨sign, _, signs, writes, parts⟩, rfl⟩

/-- A finite double is read from a number text whose value stays below the bound of the doubles. -/
theorem read?_eq_some_and_isFinite_iff {value : Binary64} :
    read? text = some value ∧ value.isFinite = true ↔ ∃ negative digits exponent,
      WritesFloat text negative digits exponent ∧ (digits : ℚ) * 10 ^ exponent < overflowBound ∧
        value = ofDecimal negative digits exponent := by
  constructor
  · rintro ⟨read, finite⟩
    obtain ⟨negative, digits, exponent, writes, rfl⟩ := writesFloat_of_read? read finite
    exact ⟨negative, digits, exponent, writes, (isFinite_ofDecimal_iff ..).mp finite, rfl⟩
  · rintro ⟨negative, digits, exponent, writes, small, rfl⟩
    exact ⟨read?_of_writesFloat writes, (isFinite_ofDecimal_iff ..).mpr small⟩

end Binary64

end QueryContract.Number
