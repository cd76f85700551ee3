import QueryContract.Text.Letters

/-!
Letters and digits are characters of the ASCII range, so a fact about all of them is a check of that
range.
-/

namespace QueryContract.Text

theorem isAlphanum_cases {c : Char} (h : c.isAlphanum = true) :
    c.isUpper = true ∨ c.isLower = true ∨ c.isDigit = true := by
  rcases Bool.or_eq_true_iff.mp h with letter | digit
  · rcases Bool.or_eq_true_iff.mp letter with upper | lower
    · exact .inl upper
    · exact .inr (.inl lower)
  · exact .inr (.inr digit)

theorem toNat_lt_of_isAlphanum {c : Char} (h : c.isAlphanum = true) : c.toNat < 128 := by
  have upper : c.isUpper = true → c.toNat ≤ 90 := fun h => (of_decide_eq_true h).2
  have lower : c.isLower = true → c.toNat ≤ 122 := fun h =>
    of_decide_eq_true (Bool.and_eq_true_iff.mp h).2
  have digit : c.isDigit = true → c.toNat ≤ 57 := fun h =>
    of_decide_eq_true (Bool.and_eq_true_iff.mp h).2
  rcases isAlphanum_cases h with h | h | h
  · have bound := upper h
    omega
  · have bound := lower h
    omega
  · have bound := digit h
    omega

theorem toNat_lt_of_isNamePart {c : Char} (h : isNamePart c = true) : c.toNat < 128 := by
  rcases Bool.or_eq_true_iff.mp h with alphanum | underscore
  · exact toNat_lt_of_isAlphanum alphanum
  · rw [eq_of_beq underscore]
    decide

/-- What holds of every letter and digit of the ASCII range holds of every letter and digit. -/
theorem alphanum_cases {p : Char → Prop}
    (all : ∀ n < 128, (Char.ofNat n).isAlphanum = true → p (Char.ofNat n)) {c : Char}
    (h : c.isAlphanum = true) : p c := by
  have found := all c.toNat (toNat_lt_of_isAlphanum h)
  rw [Char.ofNat_toNat] at found
  exact found h

theorem namePart_cases {p : Char → Prop}
    (all : ∀ n < 128, isNamePart (Char.ofNat n) = true → p (Char.ofNat n)) {c : Char}
    (h : isNamePart c = true) : p c := by
  have found := all c.toNat (toNat_lt_of_isNamePart h)
  rw [Char.ofNat_toNat] at found
  exact found h

theorem isUpper_or_isDigit_toUpper {c : Char} (h : c.isAlphanum = true) :
    c.toUpper.isUpper = true ∨ c.toUpper.isDigit = true :=
  alphanum_cases (p := fun c => c.toUpper.isUpper = true ∨ c.toUpper.isDigit = true) (by decide) h

theorem isUpper_toUpper {c : Char} (h : c.isAlphanum = true) (letter : c.isDigit = false) :
    c.toUpper.isUpper = true :=
  alphanum_cases (p := fun c => c.isDigit = false → c.toUpper.isUpper = true) (by decide) h letter

theorem isLower_toLower {c : Char} (h : c.isAlphanum = true) (letter : c.isDigit = false) :
    c.toLower.isLower = true :=
  alphanum_cases (p := fun c => c.isDigit = false → c.toLower.isLower = true) (by decide) h letter

theorem isAlphanum_toUpper {c : Char} (h : c.isAlphanum = true) : c.toUpper.isAlphanum = true :=
  alphanum_cases (p := fun c => c.toUpper.isAlphanum = true) (by decide) h

theorem isAlphanum_toLower {c : Char} (h : c.isAlphanum = true) : c.toLower.isAlphanum = true :=
  alphanum_cases (p := fun c => c.toLower.isAlphanum = true) (by decide) h

theorem isAlphanum_of_isAlpha {c : Char} (h : c.isAlpha = true) : c.isAlphanum = true :=
  Bool.or_eq_true_iff.mpr (.inl h)

theorem isAlphanum_of_isUpper {c : Char} (h : c.isUpper = true) : c.isAlphanum = true :=
  isAlphanum_of_isAlpha (Bool.or_eq_true_iff.mpr (.inl h))

theorem isAlphanum_of_isLower {c : Char} (h : c.isLower = true) : c.isAlphanum = true :=
  isAlphanum_of_isAlpha (Bool.or_eq_true_iff.mpr (.inr h))

theorem isAlphanum_of_isDigit {c : Char} (h : c.isDigit = true) : c.isAlphanum = true :=
  Bool.or_eq_true_iff.mpr (.inr h)

theorem toLower_of_isDigit {c : Char} (h : c.isDigit = true) : c.toLower = c :=
  alphanum_cases (p := fun c => c.isDigit = true → c.toLower = c) (by decide)
    (isAlphanum_of_isDigit h) h

theorem toLower_of_not_isUpper {c : Char} (h : c.isUpper = false) : c.toLower = c :=
  dif_neg (of_decide_eq_false h)

/-- What has a small letter for its lower case is that letter in one of its two cases. -/
theorem toLower_eq_iff {c small : Char} (h : small.isLower = true) :
    c.toLower = small ↔ c = small ∨ c = small.toUpper := by
  have letter := isAlphanum_of_isLower h
  constructor
  · intro same
    subst small
    cases upper : c.isUpper with
    | true =>
      right
      exact alphanum_cases (p := fun c => c.isUpper = true → c = c.toLower.toUpper) (by decide)
        (isAlphanum_of_isUpper upper) upper
    | false =>
      left
      exact (toLower_of_not_isUpper upper).symm
  · intro either
    rcases either with rfl | rfl
    · exact alphanum_cases (p := fun c => c.isLower = true → c.toLower = c) (by decide) letter h
    · exact alphanum_cases (p := fun c => c.isLower = true → c.toUpper.toLower = c) (by decide)
        letter h

theorem isNamePart_of_isNameStart {c : Char} (h : isNameStart c = true) : isNamePart c = true := by
  rw [isNameStart, Bool.or_eq_true] at h
  rw [isNamePart, Bool.or_eq_true]
  exact h.imp_left fun letter => by rw [Char.isAlphanum, letter, Bool.true_or]

theorem isNamePart_of_isName {name : List Char} (h : isName name = true) :
    ∀ c ∈ name, isNamePart c = true := by
  cases name with
  | nil => cases h
  | cons first rest =>
    rw [isName, Bool.and_eq_true, List.all_eq_true] at h
    exact List.forall_mem_cons.mpr ⟨isNamePart_of_isNameStart h.1, h.2⟩

end QueryContract.Text
