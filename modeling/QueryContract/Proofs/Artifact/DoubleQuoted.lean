import QueryContract.Artifact.Method
import QueryContract.Declaration.Reader
import QueryContract.Proofs.Artifact.Escaping

/-!
Reading a double-quoted literal of the generated code. The escapes of quoted text are not all
escapes of such a literal: the literal reads back as the text exactly if the text has no other
control characters than tabs, line feeds, form feeds and carriage returns.
-/

namespace QueryContract.Literal

open Text.Quoted (encodeChar hexCharacter hexDigit? hexValue?)

def utf8 (text : List Char) : List UInt8 := text.flatMap String.utf8EncodeChar

/-- The characters that stand for one byte after a backslash. -/
def escapeBytes : List (Char × UInt8) :=
  [('n', 10), ('t', 9), ('r', 13), ('v', 11), ('e', 27), ('f', 12), ('\\', 92), ('$', 36),
    ('"', 34)]

def isOctalDigit (c : Char) : Bool := '0' ≤ c && c ≤ '7'

def octalValue (digits : List Char) : Nat :=
  digits.foldl (fun value digit => value * 8 + (digit.toNat - 48)) 0

def isHexDigit (c : Char) : Bool := (hexDigit? c).isSome

/-- A code point between braces, after the opening one; it takes the letter and both braces too. -/
def readCodePoint (text : List Char) : Option (List UInt8 × Nat) :=
  let digits := text.takeWhile isHexDigit
  match hexValue? digits, (text.drop digits.length).head? with
  | some value, some '}' =>
    if digits ≠ [] ∧ value.isValidChar then
      some (String.utf8EncodeChar (Char.ofNat value), digits.length + 3)
    else none
  | _, _ => none

/-- What a backslash stands for with the characters after it, and how many of these it takes. It
    stays in the value where it begins no escape. -/
def readEscape : List Char → Option (List UInt8 × Nat)
  | [] => none
  | c :: rest =>
    match escapeBytes.lookup c with
    | some byte => some ([byte], 1)
    | none =>
      if isOctalDigit c then
        let digits := ((c :: rest).take 3).takeWhile isOctalDigit
        some ([UInt8.ofNat (octalValue digits)], digits.length)
      else if c = 'x' ∧ rest.head?.any isHexDigit then
        let digits := (rest.take 2).takeWhile isHexDigit
        some ([UInt8.ofNat ((hexValue? digits).getD 0)], digits.length + 1)
      else if c = 'u' ∧ rest.head? = some '{' then readCodePoint (rest.drop 1)
      else some (utf8 ['\\', c], 1)

/-- A dollar sign before these begins a variable. -/
def interpolates (c : Char) : Bool := Text.isNamePart c || 128 ≤ c.toNat || c = '{'

/-- The value goes on with the bytes of one character or escape. -/
def precede (bytes : List UInt8) (read : Option (List UInt8 × List Char)) :
    Option (List UInt8 × List Char) :=
  read.map fun (value, rest) => (bytes ++ value, rest)

/-- The value up to the closing quote, and the text after it. The number tells how many characters
    belong to the escape before them. Text with variables in it has no value. -/
def readBody : Nat → List Char → Option (List UInt8 × List Char)
  | _, [] => none
  | taken + 1, _ :: rest => readBody taken rest
  | 0, c :: rest =>
    if c = '"' then some ([], rest)
    else if c = '\\' then
      match readEscape rest with
      | some (bytes, taken) => precede bytes (readBody taken rest)
      | none => none
    else if c = '$' ∧ rest.head?.any interpolates then none
    else precede (String.utf8EncodeChar c) (readBody 0 rest)

/-- The value of the double-quoted literal at the start of a text, and the text after it. -/
def readDoubleQuoted : List Char → Option (List UInt8 × List Char)
  | '"' :: rest => readBody 0 rest
  | _ => none

/-- Control characters whose escape in quoted text means something else in a literal. -/
def isLost (c : Char) : Bool := c < ' ' && !(['\t', '\n', '\x0C', '\r'].contains c)

/-- What a literal says of a character. -/
def readBack (c : Char) : List UInt8 := utf8 (if isLost c then encodeChar c else [c])

theorem precede_nil (read : Option (List UInt8 × List Char)) : precede [] read = read := by
  cases read <;> rfl

theorem precede_append (bytes others : List UInt8) (read : Option (List UInt8 × List Char)) :
    precede (bytes ++ others) read = precede bytes (precede others read) := by
  cases read with
  | none => rfl
  | some value => simp only [precede, Option.map_some, List.append_assoc]

theorem utf8_append (left right : List Char) : utf8 (left ++ right) = utf8 left ++ utf8 right :=
  List.flatMap_append

theorem utf8_cons (c : Char) (rest : List Char) : utf8 (c :: rest) = utf8 [c] ++ utf8 rest :=
  utf8_append [c] rest

section Body

variable {c : Char} {rest : List Char}

theorem readBody_plain (backslash : c ≠ '\\') (quote : c ≠ '"') (dollar : c ≠ '$') :
    readBody 0 (c :: rest) = precede (utf8 [c]) (readBody 0 rest) := by
  rw [readBody, if_neg quote, if_neg backslash, if_neg fun sign => dollar sign.1]
  simp [utf8]

theorem readBody_escape {byte : UInt8} (known : escapeBytes.lookup c = some byte) :
    readBody 0 ('\\' :: c :: rest) = precede [byte] (readBody 0 rest) := by
  have escape : readEscape (c :: rest) = some ([byte], 1) := by
    rw [readEscape, known]
  rw [readBody, if_neg (by decide), if_pos rfl, escape]
  rfl

theorem readBody_unknown (unknown : escapeBytes.lookup c = none)
    (octal : isOctalDigit c = false) (hex : c ≠ 'x')
    (codePoint : c = 'u' → rest.head? ≠ some '{') :
    readBody 0 ('\\' :: c :: rest) = precede (utf8 ['\\', c]) (readBody 0 rest) := by
  have escape : readEscape (c :: rest) = some (utf8 ['\\', c], 1) := by
    rw [readEscape, unknown, octal]
    have braced : ¬(c = 'u' ∧ rest.head? = some '{') := fun both => codePoint both.1 both.2
    simp only [hex, false_and, if_false, if_neg braced]
    rfl
  rw [readBody, if_neg (by decide), if_pos rfl, escape]
  rfl

theorem readBody_plains {text : List Char}
    (plain : ∀ c ∈ text, c ≠ '\\' ∧ c ≠ '"' ∧ c ≠ '$') (rest : List Char) :
    readBody 0 (text ++ rest) = precede (utf8 text) (readBody 0 rest) := by
  induction text with
  | nil => exact (precede_nil _).symm
  | cons c others ih =>
    obtain ⟨⟨backslash, quote, dollar⟩, later⟩ := List.forall_mem_cons.mp plain
    rw [List.cons_append, readBody_plain backslash quote dollar, ih later, ← precede_append,
      ← utf8_cons]

/-- Without a brace after its letter the escape of a code unit is no escape of a literal. -/
theorem readBody_unicodeEscape {digits : List Char}
    (plain : ∀ c ∈ digits, c ≠ '\\' ∧ c ≠ '"' ∧ c ≠ '$')
    (unbraced : (digits ++ rest).head? ≠ some '{') :
    readBody 0 ('\\' :: 'u' :: (digits ++ rest)) =
      precede (utf8 ('\\' :: 'u' :: digits)) (readBody 0 rest) := by
  rw [readBody_unknown (by decide) (by decide) (by decide) fun _ => unbraced,
    readBody_plains plain, ← precede_append, ← utf8_append]
  rfl

theorem unitDigits_plain (high low : Nat) :
    ∀ c ∈ ['0', '0', hexCharacter high, hexCharacter low], c ≠ '\\' ∧ c ≠ '"' ∧ c ≠ '$' := by
  simp only [List.forall_mem_cons, List.not_mem_nil, false_implies, implies_true, and_true]
  exact ⟨by decide, by decide, Artifact.hexCharacter_plain high, Artifact.hexCharacter_plain low⟩

/-- The escapes of quoted text come back as the character where a literal has the same escape. -/
theorem readBody_encodeChar (c : Char) (rest : List Char) :
    readBody 0 ((encodeChar c).flatMap escapeDollar ++ rest) =
      precede (readBack c) (readBody 0 rest) := by
  rw [encodeChar]
  split
  · rename_i quote
    subst quote
    exact readBody_escape rfl
  split
  · rename_i backslash
    subst backslash
    exact readBody_escape rfl
  split
  · rename_i backspace
    subst backspace
    exact readBody_unknown rfl rfl (by decide) fun letter => absurd letter (by decide)
  split
  · rename_i formFeed
    subst formFeed
    exact readBody_escape rfl
  split
  · rename_i lineFeed
    subst lineFeed
    exact readBody_escape rfl
  split
  · rename_i carriageReturn
    subst carriageReturn
    exact readBody_escape rfl
  split
  · rename_i tab
    subst tab
    exact readBody_escape rfl
  rename_i quote backslash backspace formFeed lineFeed carriageReturn tab
  split
  · rename_i control
    have lost : isLost c = true := by
      simp [isLost, control, formFeed, lineFeed, carriageReturn, tab]
    have escape : encodeChar c =
        ['\\', 'u', '0', '0', hexCharacter (c.toNat / 16), hexCharacter c.toNat] := by
      rw [encodeChar, if_neg quote, if_neg backslash, if_neg backspace, if_neg formFeed,
        if_neg lineFeed, if_neg carriageReturn, if_neg tab, if_pos control]
    rw [readBack, if_pos lost, escape, Artifact.flatMap_escapeDollar_unicodeEscape]
    exact readBody_unicodeEscape (unitDigits_plain _ _) (by simp)
  · rename_i printed
    have kept : isLost c = false := by simp [isLost, printed]
    rw [readBack, kept, List.flatMap_singleton, escapeDollar]
    split
    · rename_i dollar
      subst dollar
      exact readBody_escape rfl
    · rename_i dollar
      exact readBody_plain backslash quote dollar

end Body

theorem readBody_encoded (text rest : List Char) :
    readBody 0 ((text.flatMap encodeChar).flatMap escapeDollar ++ '"' :: rest) =
      some (text.flatMap readBack, rest) := by
  induction text with
  | nil => rfl
  | cons c others ih =>
    rw [List.flatMap_cons, List.flatMap_append, List.append_assoc, readBody_encodeChar, ih]
    rfl

theorem toList_doubleQuoted (text : String) :
    (doubleQuoted text).toList =
      '"' :: ((text.toList.flatMap encodeChar).flatMap escapeDollar ++ ['"']) := by
  rw [doubleQuoted, String.toList_ofList, Text.Quoted.write, List.cons_append, List.flatMap_cons,
    List.flatMap_append]
  rfl

theorem readDoubleQuoted_doubleQuoted (text : String) (rest : List Char) :
    readDoubleQuoted ((doubleQuoted text).toList ++ rest) =
      some (text.toList.flatMap readBack, rest) := by
  rw [toList_doubleQuoted, List.cons_append, List.append_assoc]
  exact readBody_encoded text.toList rest

section Lost

variable {c : Char}

theorem head?_encodeChar_of_lt (control : c < ' ') : (encodeChar c).head? = some '\\' := by
  rw [encodeChar]
  repeat' split
  all_goals rfl

theorem lt_of_isLost (lost : isLost c = true) : c < ' ' := by
  rw [isLost, Bool.and_eq_true] at lost
  exact of_decide_eq_true lost.1

theorem head?_readBack_of_isLost (lost : isLost c = true) : (readBack c).head? = some 92 := by
  obtain ⟨rest, starts⟩ := List.head?_eq_some_iff.mp (head?_encodeChar_of_lt (lt_of_isLost lost))
  rw [readBack, if_pos lost, starts]
  rfl

theorem head?_utf8_of_isLost (lost : isLost c = true) (rest : List Char) :
    (utf8 (c :: rest)).head? ≠ some 92 := by
  have small : c.val.toNat < 32 := lt_of_isLost lost
  have ascii : c.val ≤ 127 := Nat.le_trans (Nat.le_of_lt small) (by decide : 32 ≤ 127)
  have one : c.utf8Size = 1 := Char.utf8Size_eq_one_iff.mpr ascii
  rw [utf8, List.flatMap_cons, String.utf8EncodeChar_eq_singleton one, List.singleton_append,
    List.head?_cons, ne_eq, Option.some.injEq]
  intro backslash
  have value : c.val.toNat % 256 = 92 := congrArg UInt8.toNat backslash
  omega

theorem flatMap_readBack_eq_iff (text : List Char) :
    text.flatMap readBack = utf8 text ↔ ∀ c ∈ text, isLost c = false := by
  induction text with
  | nil => simp [utf8]
  | cons c rest ih =>
    rw [List.flatMap_cons, List.forall_mem_cons]
    cases lost : isLost c with
    | true =>
      have differs : readBack c ++ rest.flatMap readBack ≠ utf8 (c :: rest) := by
        intro same
        have starts := congrArg List.head? same
        rw [List.head?_append, head?_readBack_of_isLost lost] at starts
        exact head?_utf8_of_isLost lost rest starts.symm
      simp [differs]
    | false =>
      have kept : readBack c = utf8 [c] := by rw [readBack, lost]; rfl
      rw [kept, utf8_cons c rest, List.append_cancel_left_eq, ih]
      simp

end Lost

end QueryContract.Literal

namespace QueryContract.Artifact

/-- The call up to its first argument. -/
def callOpening (operation : Operation) : String :=
  "$this->conn->" ++ operation.kind.connectorMethod ++ "("

/-- The first argument of the call is one literal, with a comma after it. Its value is the name of
    the operation exactly if every control character of the name has an escape in literals. -/
theorem called_name_reads_iff (operation : Operation) :
    ∃ after rest,
      (callLine operation).toList = (callOpening operation).toList ++ after ∧
      Literal.readDoubleQuoted after =
        some (operation.name.toList.flatMap Literal.readBack, ',' :: rest) ∧
      (operation.name.toList.flatMap Literal.readBack = Literal.utf8 operation.name.toList ↔
        ∀ c ∈ operation.name.toList, Literal.isLost c = false) := by
  have comma : ", [".toList = ',' :: " [".toList := by decide
  have opened : ∃ rest, (callLine operation).toList = (callOpening operation).toList ++
      ((Literal.doubleQuoted operation.name).toList ++ ',' :: rest) := by
    unfold callLine callOpening
    simp only [String.toList_append, List.append_assoc, comma, List.cons_append,
      List.append_cancel_left_eq]
    exact ⟨_, rfl⟩
  obtain ⟨rest, opened⟩ := opened
  exact ⟨_, rest, opened, Literal.readDoubleQuoted_doubleQuoted operation.name (',' :: rest),
    Literal.flatMap_readBack_eq_iff operation.name.toList⟩

/-- A declared name with a backspace in it: the call names another operation. -/
theorem called_name_differs :
    ((Document.read ⟨"q.sql"⟩ "-- #\x7b a\x08b\nSELECT 1\n-- #\x7d\n").toOption.map
      fun document => document.statements.map (·.name)) = some ["a\x08b"] ∧
    Literal.readDoubleQuoted (Literal.doubleQuoted "a\x08b").toList =
      some (Literal.utf8 "a\\bb".toList, []) ∧
    Literal.utf8 "a\\bb".toList ≠ Literal.utf8 "a\x08b".toList := by
  decide +kernel

end QueryContract.Artifact
