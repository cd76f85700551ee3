import Mathlib.Tactic.SplitIfs

/-!
The bytes of a text. The encodings of two characters first differ in a byte that is less on the side
of the lesser character, so texts stand in the order of their bytes as in that of their characters.
The byte of a digit stands in the encoding of that digit alone.
-/

namespace QueryContract.Text

open String (utf8EncodeChar)

variable {c d : Char}

def bytes (text : List Char) : List UInt8 := text.flatMap utf8EncodeChar

theorem bytes_cons (c : Char) (rest : List Char) :
    bytes (c :: rest) = utf8EncodeChar c ++ bytes rest := List.flatMap_cons

theorem exists_bytes_cons (c : Char) (rest : List Char) :
    ∃ byte more, bytes (c :: rest) = byte :: more := by
  cases encoded : utf8EncodeChar c with
  | nil => exact absurd encoded String.utf8EncodeChar_ne_nil
  | cons byte more =>
    exact ⟨byte, more ++ bytes rest, by rw [bytes_cons, encoded, List.cons_append]⟩

def isDigitByte (byte : UInt8) : Bool := 48 ≤ byte && byte ≤ 57

/-- The bytes differ somewhere, and where they first do the left one is less. -/
def Below (left right : List UInt8) : Prop :=
  ∃ shared a b later others, left = shared ++ a :: later ∧ right = shared ++ b :: others ∧ a < b

theorem Below.cons {a b : Nat} {left right : List UInt8} (bound : b < 256) (h : a ≤ b)
    (tail : a = b → Below left right) : Below (UInt8.ofNat a :: left) (UInt8.ofNat b :: right) := by
  by_cases same : a = b
  · obtain ⟨shared, c, d, later, others, rfl, rfl, less⟩ := tail same
    rw [same]
    exact ⟨UInt8.ofNat b :: shared, c, d, later, others, rfl, rfl, less⟩
  · refine ⟨[], _, _, left, right, rfl, rfl, ?_⟩
    rw [UInt8.lt_iff_toNat_lt, UInt8.toNat_ofNat_of_lt' (Nat.lt_of_le_of_lt h bound),
      UInt8.toNat_ofNat_of_lt' bound]
    omega

theorem val_toNat_lt (c : Char) : c.val.toNat < 1114112 := by
  have valid := c.valid
  rw [UInt32.isValidChar, Nat.isValidChar] at valid
  omega

/-- The encoding of the greater character has the greater byte where they first differ. -/
theorem below_utf8EncodeChar (less : c.toNat < d.toNat) :
    Below (utf8EncodeChar c) (utf8EncodeChar d) := by
  have bound := val_toNat_lt d
  change c.val.toNat < d.val.toNat at less
  rw [utf8EncodeChar, utf8EncodeChar]
  generalize c.val.toNat = v at *
  generalize d.val.toNat = w at *
  have lead {a b : Nat} {left right : List UInt8} (h : a < b) (hb : b < 256) :
      Below (UInt8.ofNat a :: left) (UInt8.ofNat b :: right) :=
    .cons hb (Nat.le_of_lt h) fun same => absurd same (Nat.ne_of_lt h)
  split_ifs
  -- encodings of different lengths differ in their first byte
  all_goals try first | omega | exact lead (by omega) (by omega)
  · exact .cons (by omega) (by omega) fun _ => lead (by omega) (by omega)
  · exact .cons (by omega) (by omega) fun _ => .cons (by omega) (by omega) fun _ =>
      lead (by omega) (by omega)
  · exact .cons (by omega) (by omega) fun _ => .cons (by omega) (by omega) fun _ =>
      .cons (by omega) (by omega) fun _ => lead (by omega) (by omega)

theorem isDigit_eq_false_iff : c.isDigit = false ↔ c.toNat < 48 ∨ 57 < c.toNat := by
  rw [Bool.eq_false_iff, ne_eq, Char.isDigit_iff_toNat]
  change ¬(48 ≤ c.toNat ∧ c.toNat ≤ 57) ↔ _
  omega

theorem isDigitByte_ofNat {n : Nat} (h : n < 256) :
    isDigitByte (UInt8.ofNat n) = (decide (48 ≤ n) && decide (n ≤ 57)) := by
  rw [isDigitByte]
  simp [UInt8.le_iff_toNat_le, Nat.mod_eq_of_lt h]

theorem isDigitByte_of_mem_utf8EncodeChar (plain : c.isDigit = false) :
    ∀ byte ∈ utf8EncodeChar c, isDigitByte byte = false := by
  have outside : c.val.toNat < 48 ∨ 57 < c.val.toNat := isDigit_eq_false_iff.mp plain
  have bound := val_toNat_lt c
  rw [utf8EncodeChar]
  generalize c.val.toNat = v at *
  have apart {n : Nat} (h : n < 256) (outside : n < 48 ∨ 57 < n) :
      isDigitByte (UInt8.ofNat n) = false := by
    rw [isDigitByte_ofNat h, ← Bool.decide_and, decide_eq_false_iff_not]
    omega
  split_ifs <;> simp only [List.forall_mem_cons, List.not_mem_nil, false_imp_iff, implies_true,
    and_true]
  · exact apart (by omega) outside
  · exact ⟨apart (by omega) (by omega), apart (by omega) (by omega)⟩
  · exact ⟨apart (by omega) (by omega), apart (by omega) (by omega), apart (by omega) (by omega)⟩
  · exact ⟨apart (by omega) (by omega), apart (by omega) (by omega), apart (by omega) (by omega),
      apart (by omega) (by omega)⟩

theorem utf8EncodeChar_of_isDigit (digit : c.isDigit = true) :
    utf8EncodeChar c = [UInt8.ofNat c.toNat] := by
  have range : 48 ≤ c.toNat ∧ c.toNat ≤ 57 := Char.isDigit_iff_toNat.mp digit
  have small : c.val.toNat ≤ 127 := by
    change c.toNat ≤ 127
    omega
  rw [utf8EncodeChar]
  simp only [small, if_true]
  rfl

theorem bytes_of_isDigit (digit : c.isDigit = true) (rest : List Char) :
    bytes (c :: rest) = UInt8.ofNat c.toNat :: bytes rest := by
  rw [bytes_cons, utf8EncodeChar_of_isDigit digit]
  rfl

theorem isDigitByte_of_isDigit (digit : c.isDigit = true) :
    isDigitByte (UInt8.ofNat c.toNat) = true ∧ Char.ofUInt8 (UInt8.ofNat c.toNat) = c := by
  have range : 48 ≤ c.toNat ∧ c.toNat ≤ 57 := Char.isDigit_iff_toNat.mp digit
  rw [isDigitByte_ofNat (by omega)]
  refine ⟨by simp [range], ?_⟩
  apply Char.ext
  apply UInt32.toNat_inj.mp
  change (UInt8.ofNat c.toNat).toUInt32.toNat = c.toNat
  rw [UInt8.toNat_toUInt32, UInt8.toNat_ofNat_of_lt' (Nat.lt_of_le_of_lt range.2 (by decide))]

theorem toList_data_toByteArray (text : String) :
    text.toByteArray.data.toList = bytes text.toList := by
  rw [← String.utf8Encode_toList, List.utf8Encode]
  simp [bytes]

theorem compare_append_left (shared left right : List UInt8) :
    compare (shared ++ left) (shared ++ right) = compare left right := by
  induction shared with
  | nil => rfl
  | cons byte rest ih =>
    rw [List.cons_append, List.cons_append, List.compare_cons_cons, Std.ReflOrd.compare_self,
      Ordering.eq_then, ih]

theorem Below.compare {left right : List UInt8} (h : Below left right) (more others : List UInt8) :
    compare (left ++ more) (right ++ others) = .lt := by
  obtain ⟨shared, a, b, later, rest, rfl, rfl, less⟩ := h
  have first : Ord.compare a b = .lt := Std.compare_eq_lt.mpr less
  rw [List.append_assoc, List.append_assoc, compare_append_left, List.cons_append,
    List.cons_append, List.compare_cons_cons, first, Ordering.lt_then]

/-- Texts stand in the order of their bytes as they do in that of their characters. -/
theorem compare_bytes (left right : List Char) :
    compare (bytes left) (bytes right) = compare left right := by
  induction left generalizing right with
  | nil =>
    cases right with
    | nil => rfl
    | cons d others =>
      obtain ⟨byte, more, written⟩ := exists_bytes_cons d others
      rw [written]
      rfl
  | cons c rest ih =>
    cases right with
    | nil =>
      obtain ⟨byte, more, written⟩ := exists_bytes_cons c rest
      rw [written]
      rfl
    | cons d others =>
      rw [bytes_cons, bytes_cons, List.compare_cons_cons]
      rcases Nat.lt_trichotomy c.toNat d.toNat with less | same | greater
      · have first : compare c d = .lt := compareOfLessAndEq_eq_lt.mpr less
        rw [(below_utf8EncodeChar less).compare, first, Ordering.lt_then]
      · rw [Char.toNat_inj.mp same, compare_append_left, ih, Std.ReflOrd.compare_self,
          Ordering.eq_then]
      · have first : compare d c = .lt := compareOfLessAndEq_eq_lt.mpr greater
        have whole := (below_utf8EncodeChar greater).compare (bytes others) (bytes rest)
        rw [Std.OrientedCmp.gt_iff_lt.mpr whole, Std.OrientedCmp.gt_iff_lt.mpr first,
          Ordering.gt_then]

theorem bytes_injective : Function.Injective bytes := by
  intro left right same
  have equal : compare left right = .eq := by
    rw [← compare_bytes, same, Std.ReflOrd.compare_self]
  exact Std.LawfulEqOrd.eq_of_compare equal

end QueryContract.Text
