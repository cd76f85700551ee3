import Mathlib.Data.List.Infix
import QueryContract.Declaration.Variable
import QueryContract.Proofs.Number.Grammar
import QueryContract.Proofs.Text.Literals

/-!
The grammar of variable declarations: a type text with its two marks and the name of a scalar, and a
default text in the form of that scalar. The reader accepts exactly the texts of this grammar, and a
declaration it answers holds a default that its type can have.
-/

namespace QueryContract

section Types

variable {mark text rest : List Char} {scalar : Scalar}

theorem Scalar.read?_eq_some_iff :
    Scalar.read? text = some scalar ↔ Text.lowercase text = scalar.name.toList := by
  rw [Scalar.read?, Scalar.named?_eq_some_iff]
  constructor
  · intro same
    rw [← same, String.toList_ofList]
  · intro same
    rw [same, String.ofList_toList]

/-- A mark that is there if the flag is set. -/
def flagged (flag : Bool) (mark : List Char) : List Char := if flag then mark else []

theorem flagged_splitMark (mark text : List Char) :
    text = flagged (splitMark mark text).1 mark ++ (splitMark mark text).2 := by
  rw [splitMark]
  cases found : mark.isPrefixOf? text with
  | none => rfl
  | some rest => exact (List.isPrefixOf?_eq_some_iff_append_eq.mp found).symm

theorem splitMark_flagged (flag : Bool) (unmarked : ¬mark <+: rest) :
    splitMark mark (flagged flag mark ++ rest) = (flag, rest) := by
  rw [splitMark]
  cases flag with
  | true =>
    have found : mark.isPrefixOf? (flagged true mark ++ rest) = some rest :=
      List.isPrefixOf?_eq_some_iff_append_eq.mpr rfl
    rw [found]
  | false =>
    cases found : mark.isPrefixOf? rest with
    | none => simp [flagged, found]
    | some after => exact absurd ⟨after, List.isPrefixOf?_eq_some_iff_append_eq.mp found⟩ unmarked

def listMark : List Char := "list:".toList

def nullMark : List Char := ['?']

/-- The text of a type: `list:` for a list, `?` for a nullable type and the name of the scalar. -/
def TypeText (list nullable : Bool) (scalar : Scalar) (text : List Char) : Prop :=
  ∃ word, Text.lowercase word = scalar.name.toList ∧
    text = flagged list listMark ++ (flagged nullable nullMark ++ word)

theorem not_isPrefix_of_lowercase (other : ¬Text.lowercase mark <+: scalar.name.toList)
    (named : Text.lowercase text = scalar.name.toList) : ¬mark <+: text := by
  rintro ⟨after, rfl⟩
  rw [Text.lowercase_append] at named
  exact other ⟨_, named⟩

/-- The reader of types takes the marks off and reads the name of a scalar in the rest. -/
theorem typeText_iff {list nullable : Bool} : TypeText list nullable scalar text ↔
    (splitMark listMark text).1 = list ∧
      (splitMark nullMark (splitMark listMark text).2).1 = nullable ∧
        Scalar.read? (splitMark nullMark (splitMark listMark text).2).2 = some scalar := by
  rw [Scalar.read?_eq_some_iff]
  constructor
  · rintro ⟨word, named, rfl⟩
    have unlisted : ¬listMark <+: word :=
      not_isPrefix_of_lowercase (by cases scalar <;> decide) named
    have unmarked : ¬nullMark <+: word :=
      not_isPrefix_of_lowercase (by cases scalar <;> decide) named
    have apart : ¬listMark <+: flagged nullable nullMark ++ word := by
      cases nullable with
      | true =>
        rintro ⟨after, same⟩
        exact absurd (List.cons.inj same).1 (by decide)
      | false => exact unlisted
    rw [splitMark_flagged list apart, splitMark_flagged nullable unmarked]
    exact ⟨rfl, rfl, named⟩
  · rintro ⟨rfl, rfl, named⟩
    refine ⟨_, named, ?_⟩
    rw [← flagged_splitMark, ← flagged_splitMark]

/-- A text is a type in one way only. -/
theorem TypeText.unique {list nullable list' nullable' : Bool} {scalar' : Scalar}
    (h : TypeText list nullable scalar text) (h' : TypeText list' nullable' scalar' text) :
    list = list' ∧ nullable = nullable' ∧ scalar = scalar' := by
  obtain ⟨rfl, rfl, named⟩ := typeText_iff.mp h
  obtain ⟨rfl, rfl, named'⟩ := typeText_iff.mp h'
  rw [named, Option.some.injEq] at named'
  exact ⟨rfl, rfl, named'⟩

end Types

namespace Fallback

variable {scalar : Scalar} {nullable : Bool} {text : List Char} {value : Fallback}

/-- The texts that stand for a value of a scalar, other than `null`. -/
inductive Fits : Scalar → List Char → Fallback → Prop
  | int {text : List Char} {value : Int64} (writes : Number.WritesInt text value.toInt) :
      Fits .int text (.int value)
  | float {text : List Char} {negative : Bool} {digits : Nat} {exponent : Int}
      (writes : Number.Binary64.WritesFloat text negative digits exponent)
      (finite : (digits : ℚ) * 10 ^ exponent < Number.Binary64.overflowBound) :
      Fits .float text (.float (.ofDecimal negative digits exponent))
  | truth {text : List Char}
      (word : String.ofList (Text.lowercase text) ∈ ["true", "on", "yes", "1"]) :
      Fits .bool text (.bool true)
  | falsehood {text : List Char}
      (word : String.ofList (Text.lowercase text) ∈ ["false", "off", "no", "0"]) :
      Fits .bool text (.bool false)
  | bare {text : List Char} (unquoted : text.head? ≠ some '"') :
      Fits .string text (.string (String.ofList text))
  | quoted {scalar : Scalar} {text decoded : List Char}
      (textual : scalar = .string ∨ scalar = .timestamp)
      (literal : Text.Quoted.IsLiteral text decoded) :
      Fits scalar text (.string (String.ofList decoded))
  | now {text : List Char} (word : Text.lowercase text = "now".toList) : Fits .timestamp text .now

theorem readBool?_eq_some_iff {answer : Bool} : readBool? text = some answer ↔
    String.ofList (Text.lowercase text) ∈
      if answer then ["true", "on", "yes", "1"] else ["false", "off", "no", "0"] := by
  have apart : ∀ word ∈ ["false", "off", "no", "0"], word ∉ ["true", "on", "yes", "1"] := by decide
  rw [readBool?]
  split
  · rename_i yes
    cases answer with
    | true => exact iff_of_true rfl yes
    | false => exact iff_of_false nofun fun no => apart _ no yes
  · rename_i other
    split
    · rename_i no
      cases answer with
      | true => exact iff_of_false nofun other
      | false => exact iff_of_true rfl no
    · rename_i neither
      cases answer with
      | true => exact iff_of_false nofun other
      | false => exact iff_of_false nofun neither

theorem isQuoted_iff : isQuoted text = true ↔ text.head? = some '"' := decide_eq_true_iff

theorem readQuoted_eq_ok_iff (quoted : isQuoted text = true) : readQuoted text = .ok value ↔
    ∃ decoded, Text.Quoted.IsLiteral text decoded ∧ value = .string (String.ofList decoded) := by
  simp only [← Text.Quoted.read_eq_ok_iff (isQuoted_iff.mp quoted), readQuoted]
  cases Text.Quoted.read text with
  | error fault => simp
  | ok decoded => simp [eq_comm]

theorem getD_map_ok_iff {α : Type} {answer : Option α} {make : α → Fallback} {fault : VariableFault} :
    ((answer.map fun found => (.ok (make found) : Except VariableFault Fallback)).getD
      (.error fault)) = .ok value ↔ ∃ found, answer = some found ∧ value = make found := by
  cases answer with
  | none => simp
  | some found => simp [eq_comm]

theorem readScalar_int_iff : readScalar .int text = .ok value ↔ Fits .int text value := by
  rw [readScalar, getD_map_ok_iff]
  constructor
  · rintro ⟨number, read, rfl⟩
    exact .int (Number.readInt64?_eq_some_iff.mp read)
  · intro fits
    cases fits with
    | int writes => exact ⟨_, Number.readInt64?_eq_some_iff.mpr writes, rfl⟩
    | quoted textual => exact absurd textual (by decide)

theorem readScalar_float_iff : readScalar .float text = .ok value ↔ Fits .float text value := by
  constructor
  · intro read
    simp only [readScalar] at read
    split at read
    · rename_i number found
      split at read
      · rename_i finite
        cases read
        obtain ⟨negative, digits, exponent, writes, small, rfl⟩ :=
          Number.Binary64.read?_eq_some_and_isFinite_iff.mp ⟨found, finite⟩
        exact .float writes small
      · cases read
    · cases read
  · intro fits
    cases fits with
    | float writes small =>
      obtain ⟨found, finite⟩ := Number.Binary64.read?_eq_some_and_isFinite_iff.mpr
        ⟨_, _, _, writes, small, rfl⟩
      simp only [readScalar, found, finite, if_true]
    | quoted textual => exact absurd textual (by decide)

theorem readScalar_bool_iff : readScalar .bool text = .ok value ↔ Fits .bool text value := by
  rw [readScalar, getD_map_ok_iff]
  constructor
  · rintro ⟨answer, read, rfl⟩
    have word := readBool?_eq_some_iff.mp read
    cases answer with
    | true => exact .truth word
    | false => exact .falsehood word
  · intro fits
    cases fits with
    | truth word => exact ⟨true, readBool?_eq_some_iff.mpr word, rfl⟩
    | falsehood word => exact ⟨false, readBool?_eq_some_iff.mpr word, rfl⟩
    | quoted textual => exact absurd textual (by decide)

theorem readScalar_string_iff : readScalar .string text = .ok value ↔ Fits .string text value := by
  by_cases quoted : isQuoted text = true
  · rw [readScalar, if_pos quoted, readQuoted_eq_ok_iff quoted]
    constructor
    · rintro ⟨decoded, literal, rfl⟩
      exact .quoted (.inl rfl) literal
    · intro fits
      cases fits with
      | bare unquoted => exact absurd (isQuoted_iff.mp quoted) unquoted
      | quoted _ literal => exact ⟨_, literal, rfl⟩
  · have unquoted := quoted
    rw [isQuoted_iff] at unquoted
    rw [readScalar, if_neg quoted]
    constructor
    · rintro ⟨⟩
      exact .bare unquoted
    · intro fits
      cases fits with
      | bare _ => rfl
      | quoted _ literal => exact absurd literal.head? unquoted

theorem sameIgnoringCase_now_iff :
    Text.sameIgnoringCase text "now".toList = true ↔ Text.lowercase text = "now".toList := by
  have lower : Text.lowercase "now".toList = "now".toList := by decide
  rw [Text.sameIgnoringCase, lower, beq_iff_eq]

theorem lowercase_ne_now_of_quoted (quoted : text.head? = some '"') :
    Text.lowercase text ≠ "now".toList := by
  obtain ⟨rest, rfl⟩ := List.head?_eq_some_iff.mp quoted
  intro same
  exact absurd (List.cons.inj same).1 (by decide)

theorem readScalar_timestamp_iff :
    readScalar .timestamp text = .ok value ↔ Fits .timestamp text value := by
  by_cases word : Text.lowercase text = "now".toList
  · rw [readScalar, if_pos (sameIgnoringCase_now_iff.mpr word)]
    constructor
    · rintro ⟨⟩
      exact .now word
    · intro fits
      cases fits with
      | now _ => rfl
      | quoted _ literal => exact absurd word (lowercase_ne_now_of_quoted literal.head?)
  · rw [readScalar, if_neg (mt sameIgnoringCase_now_iff.mp word)]
    by_cases quoted : isQuoted text = true
    · rw [if_pos quoted, readQuoted_eq_ok_iff quoted]
      constructor
      · rintro ⟨decoded, literal, rfl⟩
        exact .quoted (.inr rfl) literal
      · intro fits
        cases fits with
        | now same => exact absurd same word
        | quoted _ literal => exact ⟨_, literal, rfl⟩
    · rw [if_neg quoted]
      refine iff_of_false nofun fun fits => ?_
      cases fits with
      | now same => exact word same
      | quoted _ literal => exact quoted (isQuoted_iff.mpr literal.head?)

/-- The reader of defaults accepts what fits the scalar, with the value that fits. -/
theorem readScalar_eq_ok_iff : readScalar scalar text = .ok value ↔ Fits scalar text value := by
  cases scalar with
  | int => exact readScalar_int_iff
  | float => exact readScalar_float_iff
  | bool => exact readScalar_bool_iff
  | string => exact readScalar_string_iff
  | timestamp => exact readScalar_timestamp_iff

/-- The texts that stand for a default: `null` for a nullable type, and what fits the scalar. -/
def IsDefault (scalar : Scalar) (nullable : Bool) (text : List Char) (value : Fallback) : Prop :=
  text = "null".toList ∧ nullable = true ∧ value = .null ∨
    text ≠ "null".toList ∧ Fits scalar text value

theorem read_eq_ok_iff : read scalar nullable text = .ok value ↔
    IsDefault scalar nullable text value := by
  by_cases null : text = "null".toList
  · rw [read, if_pos null]
    cases nullable with
    | true => simp [IsDefault, null, eq_comm]
    | false => simp [IsDefault, null]
  · rw [read, if_neg null, readScalar_eq_ok_iff]
    exact ⟨fun fits => .inr ⟨null, fits⟩, Or.rec (fun h => absurd h.1 null) And.right⟩

/-- A default that a declaration of this type can have. -/
def Suits (scalar : Scalar) (nullable : Bool) : Fallback → Prop
  | .null => nullable = true
  | .int _ => scalar = .int
  | .float value => scalar = .float ∧ value.isFinite = true
  | .bool _ => scalar = .bool
  | .string _ => scalar = .string ∨ scalar = .timestamp
  | .now => scalar = .timestamp

theorem Fits.suits (h : Fits scalar text value) (nullable : Bool) : value.Suits scalar nullable := by
  cases h with
  | int _ => exact rfl
  | float _ small => exact ⟨rfl, (Number.Binary64.isFinite_ofDecimal_iff ..).mpr small⟩
  | truth _ => exact rfl
  | falsehood _ => exact rfl
  | bare _ => exact .inl rfl
  | quoted textual _ => exact textual
  | now _ => exact rfl

theorem Fits.ne_null (h : Fits scalar text value) : value ≠ .null := by
  cases h <;> exact nofun

theorem IsDefault.suits (h : IsDefault scalar nullable text value) :
    value.Suits scalar nullable := by
  rcases h with ⟨-, flag, rfl⟩ | ⟨-, fits⟩
  · exact flag
  · exact fits.suits nullable

theorem IsDefault.eq_null_iff (h : IsDefault scalar nullable text value) :
    value = .null ↔ text = "null".toList := by
  rcases h with ⟨null, -, rfl⟩ | ⟨other, fits⟩
  · exact iff_of_true rfl null
  · exact iff_of_false fits.ne_null other

end Fallback

namespace Declaration

open Fallback

variable {type : List Char} {default? : Option (List Char)} {declaration : Declaration}

/-- The declaration of a type whose text is read. -/
def withDefault (list nullable : Bool) (scalar : Scalar) :
    Option (List Char) → Except VariableFault Declaration
  | none => .ok ⟨scalar, nullable, list, false, none⟩
  | some text =>
    if list then .error .listDefault
    else
      match Fallback.read scalar nullable text with
      | .ok value => .ok ⟨scalar, nullable, list, true, some value⟩
      | .error fault => .error fault

theorem read_eq (type : List Char) (default? : Option (List Char)) : read type default? =
    match Scalar.read? (splitMark nullMark (splitMark listMark type).2).2 with
    | none =>
      .error (.unknownType (String.ofList (splitMark nullMark (splitMark listMark type).2).2))
    | some scalar => withDefault (splitMark listMark type).1
      (splitMark nullMark (splitMark listMark type).2).1 scalar default? := by
  cases default? <;> rfl

theorem read_of_typeText {list nullable : Bool} {scalar : Scalar}
    (h : TypeText list nullable scalar type) (default? : Option (List Char)) :
    read type default? = withDefault list nullable scalar default? := by
  obtain ⟨rfl, rfl, named⟩ := typeText_iff.mp h
  rw [read_eq, named]

theorem exists_typeText_of_read (h : read type default? = .ok declaration) :
    ∃ list nullable scalar, TypeText list nullable scalar type := by
  rw [read_eq] at h
  split at h
  · cases h
  · rename_i scalar named
    exact ⟨_, _, scalar, typeText_iff.mpr ⟨rfl, rfl, named⟩⟩

/-- A declaration with the flags of its type and a default that the default text stands for. -/
def Declares (list nullable : Bool) (scalar : Scalar) (default? : Option (List Char))
    (declaration : Declaration) : Prop :=
  declaration.list = list ∧ declaration.nullable = nullable ∧ declaration.scalar = scalar ∧
    declaration.optional = default?.isSome ∧ declaration.fallback.isSome = default?.isSome ∧
      ∀ text ∈ default?, list = false ∧
        ∃ value, declaration.fallback = some value ∧ IsDefault scalar nullable text value

theorem declares_of_withDefault {list nullable : Bool} {scalar : Scalar}
    (h : withDefault list nullable scalar default? = .ok declaration) :
    Declares list nullable scalar default? declaration := by
  cases default? with
  | none =>
    cases h
    exact ⟨rfl, rfl, rfl, rfl, rfl, nofun⟩
  | some text =>
    simp only [withDefault] at h
    split at h
    · cases h
    rename_i single
    split at h
    · rename_i value read
      cases h
      refine ⟨rfl, rfl, rfl, rfl, rfl, ?_⟩
      rintro _ ⟨⟩
      exact ⟨Bool.not_eq_true _ ▸ single, value, rfl, Fallback.read_eq_ok_iff.mp read⟩
    · cases h

theorem exists_withDefault {list nullable : Bool} {scalar : Scalar}
    (h : ∀ text ∈ default?, list = false ∧ ∃ value, IsDefault scalar nullable text value) :
    ∃ declaration, withDefault list nullable scalar default? = .ok declaration := by
  cases default? with
  | none => exact ⟨_, rfl⟩
  | some text =>
    obtain ⟨rfl, value, stands⟩ := h text rfl
    have read := Fallback.read_eq_ok_iff.mpr stands
    exact ⟨⟨scalar, nullable, false, true, some value⟩, by simp [withDefault, read]⟩

/-- What is read carries the flags of its type and the default. -/
theorem declares_of_read (h : read type default? = .ok declaration) :
    TypeText declaration.list declaration.nullable declaration.scalar type ∧
      Declares declaration.list declaration.nullable declaration.scalar default? declaration := by
  obtain ⟨list, nullable, scalar, typed⟩ := exists_typeText_of_read h
  rw [read_of_typeText typed] at h
  obtain ⟨rfl, rfl, rfl, default⟩ := declares_of_withDefault h
  exact ⟨typed, rfl, rfl, rfl, default⟩

/-- Declarations are read exactly from the texts of their grammar, with the flags of the type and the
    value of the default. A default that is held suits the type. -/
theorem reading_follows_grammar (type : List Char) (default? : Option (List Char)) :
    ((∃ declaration, read type default? = .ok declaration) ↔ ∃ list nullable scalar,
      TypeText list nullable scalar type ∧ ∀ text ∈ default?, list = false ∧
        ∃ value, IsDefault scalar nullable text value) ∧
    ∀ declaration, read type default? = .ok declaration →
      (∀ list nullable scalar, TypeText list nullable scalar type ↔
        declaration.list = list ∧ declaration.nullable = nullable ∧ declaration.scalar = scalar) ∧
      declaration.optional = default?.isSome ∧ declaration.fallback.isSome = default?.isSome ∧
      (∀ text ∈ default?, ∃ value, declaration.fallback = some value ∧
        IsDefault declaration.scalar declaration.nullable text value) ∧
      ∀ value ∈ declaration.fallback, declaration.list = false ∧
        value.Suits declaration.scalar declaration.nullable := by
  refine ⟨⟨?_, ?_⟩, ?_⟩
  · rintro ⟨declaration, accepted⟩
    obtain ⟨typed, -, -, -, -, -, stands⟩ := declares_of_read accepted
    refine ⟨_, _, _, typed, fun text given => ?_⟩
    obtain ⟨single, value, -, default⟩ := stands text given
    exact ⟨single, value, default⟩
  · rintro ⟨list, nullable, scalar, typed, stands⟩
    rw [read_of_typeText typed]
    exact exists_withDefault stands
  · intro declaration accepted
    obtain ⟨typed, -, -, -, optional, held, stands⟩ := declares_of_read accepted
    refine ⟨fun _ _ _ => ⟨typed.unique, ?_⟩, optional, held, fun text given => ?_, ?_⟩
    · rintro ⟨rfl, rfl, rfl⟩
      exact typed
    · exact (stands text given).2
    · intro value fallback
      rw [fallback, Option.isSome_some, eq_comm, Option.isSome_iff_exists] at held
      obtain ⟨text, given⟩ := held
      obtain ⟨single, same, equal, stands⟩ := stands text given
      rw [fallback, Option.some.injEq] at equal
      exact ⟨single, equal ▸ stands.suits⟩

theorem grammar_of_quotedTimestamp :
    let declaration : Declaration := ⟨.timestamp, true, false, true, some (.string "été")⟩
    read "?TimeStamp".toList (some "\"\\u00e9té\" ".toList) = .ok declaration ∧
      TypeText false true .timestamp "?TimeStamp".toList ∧
        ∃ value, declaration.fallback = some value ∧
          IsDefault .timestamp true "\"\\u00e9té\" ".toList value := by
  have accepted : read "?TimeStamp".toList (some "\"\\u00e9té\" ".toList) =
      .ok ⟨.timestamp, true, false, true, some (.string "été")⟩ := by
    decide +kernel
  obtain ⟨-, follows⟩ :=
    reading_follows_grammar "?TimeStamp".toList (some "\"\\u00e9té\" ".toList)
  obtain ⟨typed, -, -, default, -⟩ := follows _ accepted
  exact ⟨accepted, (typed ..).mpr ⟨rfl, rfl, rfl⟩, default _ rfl⟩

end Declaration

end QueryContract
