import QueryContract.Proofs.Number.Digits
import QueryContract.Proofs.Number.Grammar
import QueryContract.Proofs.Number.Shortest

/-!
Layouts keep the value. Wherever the point, the zeros and the exponent stand, the text reads back as
the double that was laid out, and it has a point or an exponent.
-/

namespace QueryContract.Number

theorem isNumeral_toDigits (value : Nat) : IsNumeral (Nat.toDigits 10 value) :=
  ⟨Nat.toDigits_ne_nil, fun _ member => Nat.isDigit_of_mem_toDigits (by decide) (by decide) member⟩

theorem toList_showInt (value : Int) : (showInt value).toList =
    (if value < 0 then ['-'] else []) ++ Nat.toDigits 10 value.natAbs := by
  have minus : "-".toList = ['-'] := by decide
  rw [showInt, showNat]
  split
  · rw [String.toList_append, minus, String.toList_ofList]
  · rw [String.toList_ofList, List.nil_append]

theorem writesInt_showInt (value : Int) : WritesInt (showInt value).toList value := by
  rw [toList_showInt]
  split
  · rename_i negative
    refine ⟨_, true, _, .minus, isNumeral_toDigits value.natAbs, rfl, ?_⟩
    rw [digitsValue_toDigits, signed, if_pos rfl]
    omega
  · rename_i positive
    refine ⟨_, false, _, .none, isNumeral_toDigits value.natAbs, rfl, ?_⟩
    rw [digitsValue_toDigits, signed, if_neg Bool.false_ne_true]
    omega

theorem writesInt_plus_showInt {value : Int} (positive : 0 ≤ value) :
    WritesInt ('+' :: (showInt value).toList) value := by
  rw [toList_showInt, if_neg (by omega)]
  refine ⟨_, false, _, .plus, isNumeral_toDigits value.natAbs, rfl, ?_⟩
  rw [digitsValue_toDigits, signed, if_neg Bool.false_ne_true]
  omega

namespace Layout

open Binary64

/-- Where the point and the zeros stand around given digits, of which the first has the exponent
    `lead`. -/
def placeDigits (layout : Layout) (digits : List Char) (lead : Int) : String :=
  if layout.lowest ≤ lead ∧ lead ≤ layout.highest then
    if lead < 0 then "0." ++ zeros (-lead - 1).toNat ++ String.ofList digits
    else
      let before := lead.toNat + 1
      let fraction := if digits.length ≤ before then ['0'] else digits.drop before
      String.ofList (digits.take before) ++ zeros (before - digits.length) ++ "."
        ++ String.ofList fraction
  else
    let fraction := if digits.length ≤ 1 then "" else "." ++ String.ofList (digits.drop 1)
    let sign := if layout.signed && 0 ≤ lead then "+" else ""
    String.ofList (digits.take 1) ++ fraction ++ "e" ++ sign ++ showInt lead

/-- The digits of a number without the zeros at the end. -/
def significant (number : Decimal) : List Char :=
  ((Nat.toDigits 10 number.digits).reverse.dropWhile (· == '0')).reverse

theorem place_eq (layout : Layout) (number : Decimal) : layout.place number =
    layout.placeDigits (significant number)
      ((Nat.toDigits 10 number.digits).length - 1 + number.exponent) := rfl

/-- The text has this value and the form of a number with a point or an exponent. -/
def Shows (text : List Char) (value : ℚ) : Prop :=
  ('.' ∈ text ∨ 'e' ∈ text) ∧ ∃ digits exponent, WritesUnsigned text digits exponent ∧
    (digits : ℚ) * 10 ^ exponent = value

section Digits

variable {digits : List Char} {lead : Int}

/-- Zeros stand before the digits. -/
theorem shows_small (all : ∀ c ∈ digits, c.isDigit = true) (small : lead < 0) :
    Shows ("0." ++ zeros (-lead - 1).toNat ++ String.ofList digits).toList
      (digitsValue digits * 10 ^ (lead + 1 - digits.length)) := by
  have text : ("0." ++ zeros (-lead - 1).toNat ++ String.ofList digits).toList =
      ['0'] ++ ('.' :: (List.replicate (-lead - 1).toNat '0' ++ digits) ++ []) := by
    simp [zeros]
  have whole : ['0'] = List.replicate 1 '0' := rfl
  rw [text]
  refine ⟨.inl (by simp), _, _, ⟨['0'], _, _, [], 0, by simp, .point ?_, .none, by simp, rfl, rfl,
    rfl⟩, ?_⟩
  · exact List.forall_mem_append.mpr
      ⟨fun c member => List.eq_of_mem_replicate member ▸ by decide, all⟩
  · rw [whole, digitsValue_zeros_append, digitsValue_zeros_append, List.length_append,
      List.length_replicate]
    congr 2
    omega

/-- The point stands among the digits. -/
theorem shows_inside (all : ∀ c ∈ digits, c.isDigit = true) {before : Nat}
    (inside : before < digits.length) (some : 0 < before) :
    Shows (String.ofList (digits.take before) ++ "." ++ String.ofList (digits.drop before)).toList
      (digitsValue digits * 10 ^ ((before : Int) - digits.length)) := by
  have text : (String.ofList (digits.take before) ++ "." ++
      String.ofList (digits.drop before)).toList =
        digits.take before ++ ('.' :: digits.drop before ++ []) := by
    simp
  rw [text]
  refine ⟨.inl (by simp), _, _, ⟨_, _, _, [], 0, fun c member => all c (List.mem_of_mem_take member),
    .point fun c member => all c (List.mem_of_mem_drop member), .none, ?_, rfl, rfl, rfl⟩, ?_⟩
  · rw [List.take_append_drop]
    exact List.ne_nil_of_length_pos (by omega)
  · rw [List.take_append_drop, List.length_drop]
    congr 2
    omega

/-- Zeros stand between the digits and the point. -/
theorem shows_large (all : ∀ c ∈ digits, c.isDigit = true) (count : Nat) :
    Shows (String.ofList digits ++ zeros count ++ "." ++ String.ofList ['0']).toList
      (digitsValue digits * 10 ^ (count : Int)) := by
  have text : (String.ofList digits ++ zeros count ++ "." ++ String.ofList ['0']).toList =
      digits ++ List.replicate count '0' ++ ('.' :: ['0'] ++ []) := by
    simp [zeros]
  have last : digits ++ List.replicate count '0' ++ ['0'] =
      digits ++ List.replicate (count + 1) '0' := by
    rw [List.append_assoc, List.replicate_succ']
  rw [text]
  refine ⟨.inl (by simp), _, _, ⟨_, _, ['0'], [], 0, ?_, .point (by simp), .none, by simp, rfl, rfl,
    rfl⟩, ?_⟩
  · exact List.forall_mem_append.mpr
      ⟨all, fun c member => List.eq_of_mem_replicate member ▸ by decide⟩
  · have tenth : (10 : ℚ) ^ (0 - (['0'].length : Int)) = 10⁻¹ := zpow_neg_one 10
    rw [last, digitsValue_append_zeros, tenth, zpow_natCast, Nat.cast_mul, Nat.cast_pow,
      Nat.cast_ofNat, pow_succ]
    ring

/-- An exponent part follows the digits. -/
theorem shows_scientific (all : ∀ c ∈ digits, c.isDigit = true) (filled : digits ≠ []) {sign : String}
    (signed : sign = "+" ∧ 0 ≤ lead ∨ sign = "") :
    Shows (String.ofList (digits.take 1) ++
        (if digits.length ≤ 1 then "" else "." ++ String.ofList (digits.drop 1)) ++ "e" ++ sign ++
          showInt lead).toList
      (digitsValue digits * 10 ^ (lead + 1 - digits.length)) := by
  have tail : IsExponent ('e' :: (sign ++ showInt lead).toList) lead := by
    refine .mark (.inl rfl) ?_
    rcases signed with ⟨rfl, positive⟩ | rfl
    · rw [String.toList_append]
      exact writesInt_plus_showInt positive
    · rw [String.empty_append]
      exact writesInt_showInt lead
  obtain ⟨first, rest, rfl⟩ := List.exists_cons_of_ne_nil filled
  have parts : ∃ point, IsFraction point rest ∧
      (String.ofList ((first :: rest).take 1) ++ (if (first :: rest).length ≤ 1 then ""
        else "." ++ String.ofList ((first :: rest).drop 1)) ++ "e" ++ sign ++ showInt lead).toList =
          [first] ++ (point ++ 'e' :: (sign ++ showInt lead).toList) := by
    cases rest with
    | nil => exact ⟨[], .none, by simp⟩
    | cons second rest =>
      exact ⟨'.' :: second :: rest, .point (List.forall_mem_cons.mp all).2, by simp⟩
  obtain ⟨point, fractional, text⟩ := parts
  rw [text]
  refine ⟨.inr (by simp), _, _, ⟨[first], point, rest, _, lead, ?_, fractional, tail, by simp, rfl, rfl,
    rfl⟩, ?_⟩
  · exact List.forall_mem_singleton.mpr (List.forall_mem_cons.mp all).1
  · rw [List.singleton_append, List.length_cons]
    congr 2
    omega

theorem shows_placeDigits (layout : Layout) (all : ∀ c ∈ digits, c.isDigit = true)
    (filled : digits ≠ []) (lead : Int) : Shows (layout.placeDigits digits lead).toList
      (digitsValue digits * 10 ^ (lead + 1 - digits.length)) := by
  rw [placeDigits]
  split
  · split
    · rename_i small
      exact shows_small all small
    · rename_i large
      dsimp only
      split
      · rename_i short
        have exponent : lead + 1 - digits.length = (lead.toNat + 1 - digits.length : Nat) := by omega
        rw [List.take_of_length_le short, exponent]
        exact shows_large all _
      · rename_i long
        have exponent : lead + 1 = (lead.toNat + 1 : Nat) := by omega
        have none : lead.toNat + 1 - digits.length = 0 := by omega
        have empty : zeros 0 = "" := rfl
        rw [none, empty, String.append_empty, exponent]
        exact shows_inside all (by omega) (by omega)
  · refine shows_scientific all filled ?_
    split
    · rename_i plus
      exact .inl ⟨rfl, of_decide_eq_true (Bool.and_eq_true_iff.mp plus).2⟩
    · exact .inr rfl

end Digits

theorem exists_significant (number : Decimal) : ∃ count,
    Nat.toDigits 10 number.digits = significant number ++ List.replicate count '0' := by
  rw [significant]
  generalize Nat.toDigits 10 number.digits = written
  have zero : ∀ c ∈ written.reverse.takeWhile (· == '0'), c = '0' := fun c member =>
    eq_of_beq (List.mem_takeWhile_imp (p := (· == '0')) member)
  obtain ⟨count, zeros⟩ : ∃ count,
      written.reverse.takeWhile (· == '0') = List.replicate count '0' :=
    ⟨_, List.eq_replicate_of_mem zero⟩
  refine ⟨count, ?_⟩
  calc
    written = (written.reverse.takeWhile (· == '0') ++
        written.reverse.dropWhile (· == '0')).reverse := by
      rw [List.takeWhile_append_dropWhile, List.reverse_reverse]
    _ = (written.reverse.dropWhile (· == '0')).reverse ++ List.replicate count '0' := by
      rw [List.reverse_append, zeros, List.reverse_replicate]

/-- A layout shows the number that is laid out. -/
theorem shows_place (layout : Layout) {number : Decimal} (positive : 0 < number.digits) :
    Shows (layout.place number).toList (number.digits * 10 ^ number.exponent) := by
  obtain ⟨count, written⟩ := exists_significant number
  have value : digitsValue (significant number) * 10 ^ count = number.digits := by
    rw [← digitsValue_append_zeros, ← written, digitsValue_toDigits]
  have all : ∀ c ∈ significant number, c.isDigit = true := fun c member =>
    (isNumeral_toDigits number.digits).2 c (written ▸ List.mem_append_left _ member)
  have filled : significant number ≠ [] := by
    intro empty
    rw [empty] at value
    simp [digitsValue] at value
    omega
  have length : ((Nat.toDigits 10 number.digits).length : Int) =
      (significant number).length + count := by
    rw [written, List.length_append, List.length_replicate, Nat.cast_add]
  have shown := shows_placeDigits layout all filled
    ((Nat.toDigits 10 number.digits).length - 1 + number.exponent)
  have exponent : ((Nat.toDigits 10 number.digits).length : Int) - 1 + number.exponent + 1 -
      (significant number).length = count + number.exponent := by omega
  have same : (number.digits : ℚ) = digitsValue (significant number) * 10 ^ count := by
    exact_mod_cast value.symm
  rw [exponent, zpow_add₀ (by norm_num), zpow_natCast, ← mul_assoc, ← same] at shown
  rwa [place_eq]

end Layout

namespace Binary64

open Layout

variable {digits : Nat} {exponent : Int}

theorem ofDecimal_of_readsBack {ordinal : Fin magnitudeCount} {candidate : Decimal}
    (back : readsBack ordinal candidate = true) (negative : Bool) :
    ofDecimal negative candidate.digits candidate.exponent = .finite negative ordinal := by
  rw [readsBack, ofDecimal_eq_ofQuotient] at back
  rw [ofDecimal_eq_ofQuotient]
  generalize candidate.digits * Nat.pow 10 candidate.exponent.toNat = numerator at *
  generalize Nat.pow 10 (-candidate.exponent).toNat = denominator at *
  by_cases finite : nearestOrdinal numerator denominator < magnitudeCount
  · rw [ofQuotient_of_nearest _ finite rfl] at back ⊢
    exact congrArg (Binary64.finite negative) (Fin.ext (of_decide_eq_true back))
  · rw [ofQuotient, dif_neg finite] at back
    cases back

theorem shows_zero : Shows ['0', '.', '0'] 0 :=
  ⟨.inl (by decide), 0, -1, ⟨['0'], ['.', '0'], ['0'], [], 0, by simp, .point (by simp), .none,
    by decide, rfl, rfl, rfl⟩, by simp⟩

theorem ofDecimal_zero (negative : Bool) (exponent : Int) :
    ofDecimal negative 0 exponent = zero negative := by
  rw [ofDecimal, if_pos (.inl rfl)]

/-- The text of a finite double: a minus or nothing, then a number that rounds to its magnitude. -/
theorem shows_text (layout : Layout) (negative : Bool) (ordinal : Fin magnitudeCount) :
    ∃ unsigned digits exponent, (layout.text (.finite negative ordinal)).toList =
      (if negative then ['-'] else []) ++ unsigned ∧ ('.' ∈ unsigned ∨ 'e' ∈ unsigned) ∧
        WritesUnsigned unsigned digits exponent ∧
          ∀ sign, ofDecimal sign digits exponent = .finite sign ordinal := by
  have sign : (if negative then "-" else "").toList = if negative then ['-'] else [] := by
    cases negative <;> decide
  rw [Layout.text]
  by_cases none : ordinal.val = 0
  · obtain ⟨mark, digits, exponent, writes, value⟩ := shows_zero
    rw [if_pos none, String.toList_append, sign]
    refine ⟨_, digits, exponent, rfl, mark, writes, fun sign => ?_⟩
    have same : (digits : ℚ) * 10 ^ exponent = (0 : Nat) * 10 ^ exponent := by simp [value]
    rw [ofDecimal_congr sign same, ofDecimal_zero]
    exact congrArg _ (Fin.ext none.symm)
  · have positive : 0 < ordinal.val := Nat.pos_of_ne_zero none
    have back := readsBack_shortest layout.tiesUp positive ordinal.isLt
    have some : 0 < (shortest layout.tiesUp ordinal).digits := by
      refine Nat.pos_of_ne_zero fun zero => none ?_
      have reads := ofDecimal_of_readsBack back false
      rw [zero, ofDecimal_zero] at reads
      exact (congrArg Fin.val (Binary64.finite.inj reads).2).symm
    obtain ⟨mark, digits, exponent, writes, value⟩ := shows_place layout some
    rw [if_neg none, String.toList_append, sign]
    refine ⟨_, digits, exponent, rfl, mark, writes, fun sign => ?_⟩
    rw [ofDecimal_congr sign value, ofDecimal_of_readsBack back]

/-- The text of a finite double reads back as this double. -/
theorem read?_text (layout : Layout) {value : Binary64} (finite : value.isFinite = true) :
    read? (layout.text value).toList = some value := by
  cases value with
  | nan => cases finite
  | infinite negative => cases finite
  | finite negative ordinal =>
    obtain ⟨unsigned, digits, exponent, text, -, writes, rounds⟩ := shows_text layout negative ordinal
    have sign : IsSign (if negative then ['-'] else []) negative := by
      cases negative with
      | true => exact .minus
      | false => exact .none
    rw [read?_of_writesFloat ⟨_, unsigned, sign, writes, text⟩, rounds]

end Binary64

end QueryContract.Number
