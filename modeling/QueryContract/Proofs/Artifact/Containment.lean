import QueryContract.Proofs.Artifact.Escaping
import QueryContract.Proofs.Artifact.Marking
import QueryContract.Proofs.Grammar.VariableLines
import QueryContract.Proofs.Naming.Spelling

/-!
The parts of a generated file, each with the mode in which it starts and the mode in which it ends.
-/

namespace QueryContract.Artifact

open Marked (fixed mark singleQuoted doubleQuoted ofValue)

/-- A text that a scan of code passes over. -/
def Plain (text : String) : Prop := ∀ c ∈ text.toList, isPlain c = true

instance (text : String) : Decidable (Plain text) := List.decidableBAll _ _

theorem Plain.append {left right : String} (hl : Plain left) (hr : Plain right) :
    Plain (left ++ right) := Text.forall_mem_append hl hr

/-- What ends a sentence of code: a statement, or the head or the rest of a block. -/
def ends : List Char := ['{', '}', ';']

/-- What ends a sentence, and what begins a variable. -/
def signs : List Char := '$' :: ends

def isBare (c : Char) : Bool := isPlain c && !signs.contains c

def Bare (text : String) : Prop := ∀ c ∈ text.toList, isBare c = true

instance (text : String) : Decidable (Bare text) := List.decidableBAll _ _

theorem Bare.plain {text : String} (h : Bare text) : Plain text :=
  fun c member => (Bool.and_eq_true_iff.mp (h c member)).1

theorem Bare.append {left right : String} (hl : Bare left) (hr : Bare right) :
    Bare (left ++ right) := Text.forall_mem_append hl hr

theorem contained_plain {text : String} (h : Plain text) :
    StaysInCode (fixed text) := contained_code h

theorem fixed_append (left right : String) : fixed (left ++ right) = fixed left ++ fixed right := by
  rw [fixed, String.toList_append]
  exact List.map_append

/-- A letter, a digit or one of the signs of a number. -/
def isNumeric (c : Char) : Bool := c.isAlphanum || "+-.".toList.contains c

def Numeric (text : String) : Prop := ∀ c ∈ text.toList, isNumeric c = true

instance (text : String) : Decidable (Numeric text) := List.decidableBAll _ _

theorem isNumeric_cases {p : Char → Prop}
    (all : ∀ n < 128, isNumeric (Char.ofNat n) = true → p (Char.ofNat n)) {c : Char}
    (h : isNumeric c = true) : p c := by
  have small : c.toNat < 128 := by
    rcases Bool.or_eq_true_iff.mp h with letter | sign
    · exact Text.toNat_lt_of_isAlphanum letter
    · have signs : ("+-.".toList.all fun sign => decide (sign.toNat < 128)) = true := by decide
      simpa using List.all_eq_true.mp signs c (List.contains_iff_mem.mp sign)
  have found := all c.toNat small
  rw [Char.ofNat_toNat] at found
  exact found h

theorem Numeric.bare {text : String} (h : Numeric text) : Bare text :=
  fun c member => isNumeric_cases (p := fun c => isBare c = true) (by decide) (h c member)

theorem Numeric.append {left right : String} (hl : Numeric left) (hr : Numeric right) :
    Numeric (left ++ right) := Text.forall_mem_append hl hr

theorem numeric_ofList_of_isDigit {digits : List Char} (h : ∀ c ∈ digits, c.isDigit = true) :
    Numeric (String.ofList digits) := by
  intro c member
  rw [String.toList_ofList] at member
  rw [isNumeric, Text.isAlphanum_of_isDigit (h c member), Bool.true_or]

theorem numeric_showNat (value : Nat) : Numeric (Number.showNat value) :=
  numeric_ofList_of_isDigit fun _ member => Nat.isDigit_of_mem_toDigits (by decide) (by decide) member

theorem numeric_zeros (count : Nat) : Numeric (Number.zeros count) :=
  numeric_ofList_of_isDigit fun _ member => by rw [List.eq_of_mem_replicate member]; rfl

theorem numeric_showInt (value : Int) : Numeric (Number.showInt value) := by
  rw [Number.showInt]
  split
  · exact Numeric.append (by decide) (numeric_showNat _)
  · exact numeric_showNat _

theorem numeric_place (layout : Number.Layout) (number : Number.Decimal) :
    Numeric (layout.place number) := by
  have written : ∀ c ∈ ((Nat.toDigits 10 number.digits).reverse.dropWhile (· == '0')).reverse,
      c.isDigit = true := by
    intro c member
    have found := List.mem_reverse.mp ((List.dropWhile_sublist _).mem (List.mem_reverse.mp member))
    exact Nat.isDigit_of_mem_toDigits (by decide) (by decide) found
  have front (count : Nat) := numeric_ofList_of_isDigit fun c member =>
    written c (List.mem_of_mem_take (i := count) member)
  have back (count : Nat) := numeric_ofList_of_isDigit fun c member =>
    written c (List.mem_of_mem_drop (i := count) member)
  have point : Numeric "." := by decide
  simp only [Number.Layout.place]
  split
  · split
    · exact (Numeric.append (by decide) (numeric_zeros _)).append (numeric_ofList_of_isDigit written)
    · refine (((front _).append (numeric_zeros _)).append point).append ?_
      split
      · decide
      · exact back _
  · refine (((front _).append ?_).append (by decide)).append ?_ |>.append (numeric_showInt _)
    · split
      · decide
      · exact point.append (back _)
    · split <;> decide

theorem numeric_layoutText (layout : Number.Layout) (value : Number.Binary64) :
    Numeric (layout.text value) := by
  cases value with
  | nan => exact (by decide : Numeric "NaN")
  | infinite negative =>
    cases negative
    · exact (by decide : Numeric "inf")
    · exact (by decide : Numeric "-inf")
  | finite negative ordinal =>
    rw [Number.Layout.text]
    have sign : Numeric (if negative = true then "-" else "") := by cases negative <;> decide
    split
    · exact sign.append (by decide)
    · exact sign.append (numeric_place _ _)

theorem bare_signatureType (declaration : Declaration) : Bare (signatureType declaration) := by
  have scalar : Bare (scalarText declaration.scalar) := by cases declaration.scalar <;> decide
  have nullable : Bare (if declaration.nullable then "?" else "") := by
    cases declaration.nullable <;> decide
  rw [signatureType]
  split
  · decide
  · exact nullable.append scalar

theorem agrees_code {slash : Bool} {c : Char} (h : ¬(slash = true ∧ c = '*')) :
    Agrees (.code slash) c .fixed where
  input := nofun
  opening := iff_of_false (fun opens => h ⟨Mode.code.inj opens.1, opens.2⟩) nofun
  closing := iff_of_false (fun closes => nomatch closes.1) nofun
  dollar := nofun

theorem agrees_fixed_string {mode : Mode} (quoted : mode = .single false ∨ mode = .double false)
    {c : Char} (dollar : c ≠ '$') : Agrees mode c .fixed := by
  rcases quoted with rfl | rfl
  · exact agrees_outside rfl rfl (fun closes => nomatch closes.1) nofun
  · exact agrees_outside rfl rfl (fun closes => nomatch closes.1) fun _ => dollar

theorem contained_singleQuoted {kind : Mark} (hk : kind.isBrace = false) (value : String) :
    StaysInCode (singleQuoted kind value) := by
  have opens : Contained (.code false) (fixed "'") (.single false) :=
    contained_char (agrees_code (by decide)) rfl
  have closes : Contained (.single false) (fixed "'") (.code false) :=
    contained_char (agrees_fixed_string (.inl rfl) (by decide)) rfl
  exact (opens.append (contained_escapeSingle hk value.toList)).append closes

theorem contained_openQuote : Contained (.code false) (fixed "\"") (.double false) :=
  contained_char (agrees_code (by decide)) rfl

theorem contained_closeQuote : Contained (.double false) (fixed "\"") (.code false) :=
  contained_char (agrees_fixed_string (.inr rfl) (by decide)) rfl

theorem contained_doubleQuoted (name : String) : StaysInCode (doubleQuoted name) :=
  (contained_openQuote.append (contained_escapeDouble rfl name.toList)).append contained_closeQuote

theorem contained_ofValue (value : Fallback) : StaysInCode (ofValue value) := by
  cases value with
  | null => exact contained_plain (by decide)
  | int value => exact contained_plain (numeric_showInt _).bare.plain
  | float value => exact contained_plain (numeric_layoutText _ value).bare.plain
  | bool value => cases value <;> exact contained_plain (by decide)
  | string value => exact contained_singleQuoted rfl value
  | now => exact contained_singleQuoted rfl "NOW"

/-- The names that stand in the code of an operation are made of letters, digits and underscores. -/
structure Spelled (operation : Operation) : Prop where
  method : ∀ c ∈ operation.method.toList, Text.isNamePart c = true
  parameters : ∀ parameter ∈ operation.parameters.canonical, ∀ c ∈ parameter.name.toList,
    Text.isNamePart c = true

theorem bare_of_isNamePart {name : String} (h : ∀ c ∈ name.toList, Text.isNamePart c = true) :
    Bare name := fun c member =>
  Text.namePart_cases (p := fun c => isBare c = true) (by decide) (h c member)

theorem contained_signature {parameter : Parameter}
    (h : ∀ c ∈ parameter.name.toList, Text.isNamePart c = true) :
    StaysInCode (Marked.signature parameter) := by
  have declared := contained_plain (((bare_signatureType parameter.declaration).plain.append
    (by decide : Plain " $")).append (bare_of_isNamePart h).plain)
  have equals : StaysInCode (fixed " = ") := contained_plain (by decide)
  simp only [Marked.signature]
  split
  · split
    · exact (declared.append equals).append (contained_ofValue _)
    · exact declared
  · exact declared

theorem contained_double_name {kind : Mark} (hk : kind.isBrace = false) {name : String}
    (h : ∀ c ∈ name.toList, Text.isNamePart c = true) :
    Contained (.double false) (mark kind name.toList) (.double false) := by
  rw [← List.flatMap_singleton' name.toList]
  apply contained_flatMap
  intro c member
  have solid : c ≠ '\\' ∧ c ≠ '"' ∧ c ≠ '$' :=
    Text.namePart_cases (p := fun c => c ≠ '\\' ∧ c ≠ '"' ∧ c ≠ '$') (by decide) (h c member)
  exact contained_double_char hk solid.1 solid.2.1 solid.2.2

theorem contained_argument {parameter : Parameter}
    (h : ∀ c ∈ parameter.name.toList, Text.isNamePart c = true) :
    StaysInCode (fixed (argument parameter)) := by
  have arrow : fixed "\" => $" = fixed "\"" ++ fixed " => $" := fixed_append "\"" " => $"
  rw [argument, fixed_append, fixed_append, fixed_append, arrow]
  have plain : StaysInCode (fixed " => $") := contained_plain (by decide)
  have name : Contained (.double false) (fixed parameter.name) (.double false) :=
    contained_double_name rfl h
  have key := (contained_openQuote.append name).append (contained_closeQuote.append plain)
  exact key.append (contained_plain (bare_of_isNamePart h).plain)

theorem contained_comma : StaysInCode (fixed ", ") := contained_plain (by decide)

theorem contained_joined {render : Parameter → Marked} {parameters : List Parameter}
    (h : ∀ parameter ∈ parameters, StaysInCode (render parameter)) :
    StaysInCode ((fixed ", ").intercalate (parameters.map render)) := by
  apply contained_comma.intercalate
  intro part member
  obtain ⟨parameter, found, rfl⟩ := List.mem_map.mp member
  exact h parameter found

theorem contained_signatureLine {operation : Operation} (h : Spelled operation) :
    StaysInCode (Marked.signatureLine operation) := by
  have front : Plain ("public function " ++ operation.method ++ "(") :=
    (Plain.append (by decide) (bare_of_isNamePart h.method).plain).append (by decide)
  have parameters := contained_joined fun parameter found =>
    contained_signature (h.parameters parameter found)
  have back : Plain (") : Generator " ++ openBrace) := by decide
  unfold Marked.signatureLine
  exact ((contained_plain front).append parameters).append (contained_plain back)

theorem contained_callLine {operation : Operation} (h : Spelled operation) :
    StaysInCode (Marked.callLine operation) := by
  have front : Plain ("$this->conn->" ++ operation.kind.connectorMethod ++ "(") := by
    cases operation.kind <;> decide
  have arguments := contained_joined fun parameter found =>
    contained_argument (h.parameters parameter found)
  have named := (contained_plain front).append (contained_doubleQuoted operation.name)
  have bracket : Contained (.code false) (fixed ", [") (.code false) := contained_plain (by decide)
  have back : Plain "], yield Await::RESOLVE, yield Await::REJECT);" := by decide
  unfold Marked.callLine
  exact ((named.append bracket).append arguments).append (contained_plain back)

end QueryContract.Artifact
