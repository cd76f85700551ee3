import QueryContract.Proofs.Naming.FreeNumber
import QueryContract.Proofs.Text.Pieces

/-!
The spelling of generated names: which characters an identifier and a method name consist of, with
or without a number at their end.
-/

namespace QueryContract.Naming

open Text (lowercase)

def isIdentifierPart (c : Char) : Bool := c.isUpper || c.isDigit || c == '_'

def isIdentifier : List Char → Bool
  | [] => false
  | c :: rest => (c.isUpper || c == '_') && rest.all isIdentifierPart

def isMethodName : List Char → Bool
  | [] => false
  | c :: rest => (c.isLower || c == '_') && rest.all Char.isAlphanum

theorem isIdentifierPart_of_isDigit {c : Char} (h : c.isDigit = true) :
    isIdentifierPart c = true := by
  simp [isIdentifierPart, h]

theorem isIdentifierPart_toUpper {c : Char} (h : c.isAlphanum = true) :
    isIdentifierPart c.toUpper = true := by
  rcases Text.isUpper_or_isDigit_toUpper h with upper | digit
  · simp [isIdentifierPart, upper]
  · exact isIdentifierPart_of_isDigit digit

theorem isAlphanum_of_isIdentifierPart {c : Char} (h : isIdentifierPart c = true) (h' : c ≠ '_') :
    c.isAlphanum = true := by
  simp only [isIdentifierPart, Bool.or_eq_true, beq_iff_eq, h', or_false] at h
  rcases h with upper | digit
  · exact Text.isAlphanum_of_isUpper upper
  · exact Text.isAlphanum_of_isDigit digit

theorem isIdentifierPart_of_mem_showNat {c : Char} {n : Nat} (h : c ∈ (Number.showNat n).toList) :
    isIdentifierPart c = true :=
  isIdentifierPart_of_isDigit (Number.isDigit_of_mem_showNat h)

theorem isIdentifier_append {left right : List Char} (hl : isIdentifier left = true)
    (hr : ∀ c ∈ right, isIdentifierPart c = true) : isIdentifier (left ++ right) = true := by
  cases left with
  | nil => cases hl
  | cons c rest =>
    simp only [isIdentifier, List.cons_append, Bool.and_eq_true, List.all_append] at hl ⊢
    exact ⟨hl.1, hl.2, List.all_eq_true.mpr hr⟩

theorem isMethodName_append {left right : List Char} (hl : isMethodName left = true)
    (hr : ∀ c ∈ right, c.isAlphanum = true) : isMethodName (left ++ right) = true := by
  cases left with
  | nil => cases hl
  | cons c rest =>
    simp only [isMethodName, List.cons_append, Bool.and_eq_true, List.all_append] at hl ⊢
    exact ⟨hl.1, hl.2, List.all_eq_true.mpr hr⟩

/-! Identifiers. -/

theorem isIdentifierPart_of_mem_upperWords {inGap : Bool} {text : List Char} {c : Char}
    (h : c ∈ upperWords inGap text) : isIdentifierPart c = true := by
  induction text generalizing inGap with
  | nil => cases h
  | cons first rest ih =>
    simp only [upperWords] at h
    split at h
    · rename_i word
      rcases List.mem_cons.mp h with rfl | later
      · exact isIdentifierPart_toUpper word
      · exact ih later
    · split at h
      · exact ih h
      · rcases List.mem_cons.mp h with rfl | later
        · rfl
        · exact ih later

theorem isIdentifierPart_of_mem_identifierOf {name : String} {c : Char}
    (h : c ∈ (identifierOf name).toList) : isIdentifierPart c = true := by
  simp only [identifierOf, String.toList_ofList] at h
  split at h
  · rcases List.mem_cons.mp h with rfl | later
    · rfl
    · exact isIdentifierPart_of_mem_upperWords later
  · exact isIdentifierPart_of_mem_upperWords h

/-- Before words that start with a digit stands an underscore, and other words start with a letter
    or with the underscore of a gap. -/
theorem isIdentifier_identifierOf {name : String} (h : name ≠ "") :
    isIdentifier (identifierOf name).toList = true := by
  have parts : ∀ c ∈ upperWords false name.toList, isIdentifierPart c = true :=
    fun c member => isIdentifierPart_of_mem_upperWords member
  simp only [identifierOf, String.toList_ofList]
  split
  · exact List.all_eq_true.mpr parts
  · rename_i letter
    cases text : name.toList with
    | nil => exact absurd (String.toList_eq_nil_iff.mp text) h
    | cons first rest =>
      rw [text] at parts letter
      simp only [startsWithDigit, List.head?_cons, Option.any_some, Bool.not_eq_true] at letter
      by_cases word : first.isAlphanum = true
      · simp only [upperWords, word, if_true] at parts ⊢
        simp only [isIdentifier, Text.isUpper_toUpper word letter, Bool.true_or, Bool.true_and]
        exact List.all_eq_true.mpr fun c member => parts c (List.mem_cons_of_mem _ member)
      · simp only [upperWords, word, if_false, Bool.false_eq_true] at parts ⊢
        simp only [isIdentifier, beq_self_eq_true, Bool.or_true, Bool.true_and]
        exact List.all_eq_true.mpr fun c member => parts c (List.mem_cons_of_mem _ member)

theorem chooseIdentifier_cases (holders : Holders) (wanted : String) :
    ∃ suffix : List Char, (∀ c ∈ suffix, isIdentifierPart c = true) ∧
      (chooseIdentifier holders wanted).1.toList = wanted.toList ++ suffix := by
  rcases choose_cases id (fun n => wanted ++ "_" ++ Number.showNat n) wanted holders with
    same | ⟨n, numbered⟩
  · exact ⟨[], by simp, by rw [chooseIdentifier, same, List.append_nil]⟩
  · refine ⟨'_' :: (Number.showNat n).toList, ?_, ?_⟩
    · intro c member
      rcases List.mem_cons.mp member with rfl | digit
      · rfl
      · exact isIdentifierPart_of_mem_showNat digit
    · rw [chooseIdentifier, numbered]
      simp

theorem isIdentifierPart_of_mem_chooseIdentifier {holders : Holders} {name : String} {c : Char}
    (h : c ∈ (chooseIdentifier holders (identifierOf name)).1.toList) :
    isIdentifierPart c = true := by
  obtain ⟨suffix, parts, spelled⟩ := chooseIdentifier_cases holders (identifierOf name)
  rw [spelled] at h
  rcases List.mem_append.mp h with early | late
  · exact isIdentifierPart_of_mem_identifierOf early
  · exact parts c late

theorem isIdentifier_chooseIdentifier (holders : Holders) {name : String} (h : name ≠ "") :
    isIdentifier (chooseIdentifier holders (identifierOf name)).1.toList = true := by
  obtain ⟨suffix, parts, spelled⟩ := chooseIdentifier_cases holders (identifierOf name)
  rw [spelled]
  exact isIdentifier_append (isIdentifier_identifierOf h) parts

/-! Method names. -/

theorem isAlphanum_of_mem_titleCase {word : List Char} (h : ∀ c ∈ word, c.isAlphanum = true)
    {c : Char} (member : c ∈ titleCase word) : c.isAlphanum = true := by
  have lower : ∀ c ∈ lowercase word, c.isAlphanum = true := by
    intro c member
    obtain ⟨d, inWord, rfl⟩ := List.mem_map.mp member
    exact Text.isAlphanum_toLower (h d inWord)
  unfold titleCase at member
  split at member
  · cases member
  · rename_i first rest words
    rw [words] at lower
    rcases List.mem_cons.mp member with rfl | later
    · exact Text.isAlphanum_toUpper (lower first List.mem_cons_self)
    · exact lower c (List.mem_cons_of_mem _ later)

theorem isAlphanum_of_mem_camelCase {identifier : List Char}
    (h : ∀ c ∈ identifier, isIdentifierPart c = true) {c : Char}
    (member : c ∈ camelCase identifier) : c.isAlphanum = true := by
  obtain ⟨word, inWords, inWord⟩ := List.mem_flatMap.mp member
  refine isAlphanum_of_mem_titleCase (fun d inPiece => ?_) inWord
  have found := Text.mem_of_mem_splitOn inWords inPiece
  exact isAlphanum_of_isIdentifierPart (h d found.1) found.2

theorem mem_of_mem_stripWord {stripped camel : List Char} {c : Char}
    (h : c ∈ stripWord stripped camel) : c ∈ camel := by
  unfold stripWord afterWord? at h
  split at h
  · rename_i rest found
    split at h
    · exact h
    · split at found
      · cases found
        exact List.mem_of_mem_drop h
      · cases found
  · exact h

theorem isMethodName_methodStart {text : List Char} (h : ∀ c ∈ text, c.isAlphanum = true) :
    isMethodName (methodStart text) = true := by
  cases text with
  | nil => rfl
  | cons first rest =>
    have word := h first List.mem_cons_self
    have words : rest.all Char.isAlphanum = true :=
      List.all_eq_true.mpr fun c member => h c (List.mem_cons_of_mem _ member)
    by_cases digit : first.isDigit = true
    · simp [methodStart, digit, isMethodName, word, words]
    · rw [Bool.not_eq_true] at digit
      simp [methodStart, digit, isMethodName, Text.isLower_toLower word digit, words]

theorem isMethodName_methodOf (stripped : String) {identifier : String}
    (h : ∀ c ∈ identifier.toList, isIdentifierPart c = true) :
    isMethodName (methodOf stripped identifier).toList = true := by
  rw [methodOf, String.toList_ofList]
  exact isMethodName_methodStart fun c member =>
    isAlphanum_of_mem_camelCase h (mem_of_mem_stripWord member)

theorem isMethodName_chooseMethod (holders : Holders) {wanted : String}
    (h : isMethodName wanted.toList = true) :
    isMethodName (chooseMethod holders wanted).1.toList = true := by
  rcases choose_cases methodKey (fun n => wanted ++ Number.showNat n) wanted holders with
    same | ⟨n, numbered⟩
  · rw [chooseMethod, same]
    exact h
  · rw [chooseMethod, numbered, String.toList_append]
    exact isMethodName_append h fun c digit =>
      Text.isAlphanum_of_isDigit (Number.isDigit_of_mem_showNat digit)

end QueryContract.Naming
