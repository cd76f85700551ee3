import QueryContract.Proofs.Text.Encoding
import QueryContract.Proofs.Text.NaturalOrder

/-!
Natural order as a walk over the bytes of two texts, side by side. The walk takes a whole run of
digits where both texts have one and a single byte everywhere else, and it gives the order that the
pieces of the texts give.
-/

namespace QueryContract

namespace NaturalOrder

open String (utf8EncodeChar)
open Text

/-- The run of digits at the front. -/
def leadingRun (bytes : List UInt8) : List Char := (bytes.takeWhile isDigitByte).map Char.ofUInt8

/-- Walks two texts side by side: over a whole run of digits where both have one, and else byte by
    byte up to the first difference. -/
def walk : List UInt8 → List UInt8 → Ordering
  | [], [] => .eq
  | [], _ :: _ => .lt
  | _ :: _, [] => .gt
  | a :: left, b :: right =>
    if isDigitByte a && isDigitByte b then
      (compareRuns (leadingRun (a :: left)) (leadingRun (b :: right))).then
        (walk (left.dropWhile isDigitByte) (right.dropWhile isDigitByte))
    else if a = b then walk left right
    else compare a b
termination_by left => left.length
decreasing_by
  · exact Nat.lt_succ_of_le (List.dropWhile_sublist _).length_le
  · exact Nat.lt_succ_self _

variable {left right shared : List UInt8} {c d : Char}

theorem walk_shared (plain : ∀ byte ∈ shared, isDigitByte byte = false) :
    walk (shared ++ left) (shared ++ right) = walk left right := by
  induction shared with
  | nil => rfl
  | cons byte rest ih =>
    obtain ⟨head, tail⟩ := List.forall_mem_cons.mp plain
    rw [List.cons_append, List.cons_append, walk, head]
    simp only [Bool.false_and, Bool.false_eq_true, if_false, if_true]
    exact ih tail

theorem walk_of_lt {a b : UInt8} (less : a < b)
    (plain : isDigitByte a = false ∨ isDigitByte b = false) :
    walk (a :: left) (b :: right) = .lt ∧ walk (b :: right) (a :: left) = .gt := by
  have apart : a ≠ b := UInt8.ne_of_lt less
  have mixed : (isDigitByte a && isDigitByte b) = false := Bool.and_eq_false_iff.mpr plain
  constructor
  · rw [walk, mixed, if_neg Bool.false_ne_true, if_neg apart]
    exact Std.compare_eq_lt.mpr less
  · rw [walk, Bool.and_comm, mixed, if_neg Bool.false_ne_true, if_neg apart.symm]
    exact Std.compare_eq_gt.mpr less

/-- One side without digits is enough: the shared bytes are on both sides. -/
theorem walk_of_below (h : Below left right)
    (plain : (∀ byte ∈ left, isDigitByte byte = false) ∨ ∀ byte ∈ right, isDigitByte byte = false)
    (later others : List UInt8) :
    walk (left ++ later) (right ++ others) = .lt ∧
      walk (right ++ others) (left ++ later) = .gt := by
  obtain ⟨shared, a, b, x, y, rfl, rfl, less⟩ := h
  have common : ∀ byte ∈ shared, isDigitByte byte = false := fun byte member =>
    plain.elim (fun h => h byte (List.mem_append_left _ member))
      fun h => h byte (List.mem_append_left _ member)
  have apart : isDigitByte a = false ∨ isDigitByte b = false :=
    plain.imp (fun h => h a (List.mem_append_right _ List.mem_cons_self))
      fun h => h b (List.mem_append_right _ List.mem_cons_self)
  rw [List.append_assoc, List.append_assoc, walk_shared common, walk_shared common]
  exact walk_of_lt less apart

/-- Natural order of texts given as characters. -/
def order (left right : List Char) : Ordering :=
  List.compareLex Piece.compare (pieces left) (pieces right)

theorem pieces_of_isDigit (digit : c.isDigit = true) (rest : List Char) :
    pieces (c :: rest) =
      .digits (c :: rest.takeWhile Char.isDigit) :: pieces (rest.dropWhile Char.isDigit) := by
  induction rest generalizing c with
  | nil => simp [pieces, digit, addDigit]
  | cons d others ih =>
    rw [pieces, if_pos digit]
    cases next : d.isDigit with
    | true =>
      rw [ih next, addDigit, List.takeWhile_cons_of_pos next, List.dropWhile_cons_of_pos next]
    | false =>
      have plain : pieces (d :: others) = .other d :: pieces others := by simp [pieces, next]
      rw [List.takeWhile_cons_of_neg (by simp [next]), List.dropWhile_cons_of_neg (by simp [next]),
        plain, addDigit]
      simp

theorem pieces_of_not_isDigit (plain : c.isDigit = false) (rest : List Char) :
    pieces (c :: rest) = .other c :: pieces rest := by
  rw [pieces, if_neg (Bool.eq_false_iff.mp plain)]

theorem exists_pieces_cons (c : Char) (rest : List Char) :
    ∃ piece others, pieces (c :: rest) = piece :: others := by
  cases digit : c.isDigit with
  | true => exact ⟨_, _, pieces_of_isDigit digit rest⟩
  | false => exact ⟨_, _, pieces_of_not_isDigit digit rest⟩

theorem compare_eq_lt (less : c.toNat < d.toNat) : compare c d = .lt :=
  compareOfLessAndEq_eq_lt.mpr less

theorem compare_eq_gt (less : c.toNat < d.toNat) : compare d c = .gt := by
  have swapped : compare d c = (compare c d).swap := Std.OrientedCmp.eq_swap
  rw [swapped, compare_eq_lt less]
  rfl

/-- All digits stand in one place among the other characters. -/
theorem compare_zero (digit : c.isDigit = true) (plain : d.isDigit = false) :
    compare '0' d = compare c d ∧ compare d '0' = compare d c := by
  have range : 48 ≤ c.toNat ∧ c.toNat ≤ 57 := Char.isDigit_iff_toNat.mp digit
  have zero : '0'.toNat = 48 := rfl
  rcases isDigit_eq_false_iff.mp plain with low | high
  · have first : d.toNat < '0'.toNat := by omega
    have second : d.toNat < c.toNat := by omega
    rw [compare_eq_gt first, compare_eq_gt second, compare_eq_lt first, compare_eq_lt second]
    exact ⟨rfl, rfl⟩
  · have first : '0'.toNat < d.toNat := by omega
    have second : c.toNat < d.toNat := by omega
    rw [compare_eq_gt first, compare_eq_gt second, compare_eq_lt first, compare_eq_lt second]
    exact ⟨rfl, rfl⟩

theorem order_of_ne (apart : c ≠ d) (plain : c.isDigit = false ∨ d.isDigit = false)
    (rest others : List Char) : order (c :: rest) (d :: others) = compare c d := by
  have strict (next : Ordering) : (compare c d).then next = compare c d := by
    cases compared : compare c d with
    | eq => exact absurd (Std.LawfulEqOrd.eq_of_compare compared) apart
    | lt => rfl
    | gt => rfl
  cases left : c.isDigit with
  | true =>
    have right : d.isDigit = false := plain.resolve_left (by simp [left])
    rw [order, pieces_of_isDigit left, pieces_of_not_isDigit right, List.compareLex_cons_cons,
      Piece.compare, (compare_zero left right).1, strict]
  | false =>
    cases right : d.isDigit with
    | true =>
      rw [order, pieces_of_not_isDigit left, pieces_of_isDigit right, List.compareLex_cons_cons,
        Piece.compare, (compare_zero right left).2, strict]
    | false =>
      rw [order, pieces_of_not_isDigit left, pieces_of_not_isDigit right,
        List.compareLex_cons_cons, Piece.compare, strict]

theorem order_self (plain : c.isDigit = false) (rest others : List Char) :
    order (c :: rest) (c :: others) = order rest others := by
  rw [order, pieces_of_not_isDigit plain, pieces_of_not_isDigit plain, List.compareLex_cons_cons,
    Piece.compare, Std.ReflOrd.compare_self]
  rfl

theorem order_digits (left : c.isDigit = true) (right : d.isDigit = true)
    (rest others : List Char) : order (c :: rest) (d :: others) =
      (compareRuns (c :: rest.takeWhile Char.isDigit) (d :: others.takeWhile Char.isDigit)).then
        (order (rest.dropWhile Char.isDigit) (others.dropWhile Char.isDigit)) := by
  rw [order, pieces_of_isDigit left, pieces_of_isDigit right, List.compareLex_cons_cons,
    Piece.compare]
  rfl

/-! Both orders take the same steps. -/

theorem run_bytes (text : List Char) :
    leadingRun (bytes text) = text.takeWhile Char.isDigit ∧
      (bytes text).dropWhile isDigitByte = bytes (text.dropWhile Char.isDigit) := by
  induction text with
  | nil => exact ⟨rfl, rfl⟩
  | cons c rest ih =>
    cases digit : c.isDigit with
    | true =>
      obtain ⟨byte, back⟩ := isDigitByte_of_isDigit digit
      rw [leadingRun, bytes_of_isDigit digit, List.takeWhile_cons_of_pos byte,
        List.dropWhile_cons_of_pos byte, List.takeWhile_cons_of_pos digit,
        List.dropWhile_cons_of_pos digit, List.map_cons, back, ← ih.1]
      exact ⟨rfl, ih.2⟩
    | false =>
      have plain := isDigitByte_of_mem_utf8EncodeChar digit
      rw [leadingRun, List.takeWhile_cons_of_neg (by simp [digit]),
        List.dropWhile_cons_of_neg (by simp [digit]), bytes_cons]
      cases encoded : utf8EncodeChar c with
      | nil => exact absurd encoded String.utf8EncodeChar_ne_nil
      | cons byte more =>
        rw [encoded] at plain
        have first := plain byte List.mem_cons_self
        rw [List.cons_append, List.takeWhile_cons_of_neg (by simp [first]),
          List.dropWhile_cons_of_neg (by simp [first])]
        exact ⟨rfl, rfl⟩

theorem walk_digits (left : c.isDigit = true) (right : d.isDigit = true)
    (rest others : List Char) : walk (bytes (c :: rest)) (bytes (d :: others)) =
      (compareRuns (c :: rest.takeWhile Char.isDigit) (d :: others.takeWhile Char.isDigit)).then
        (walk (bytes (rest.dropWhile Char.isDigit)) (bytes (others.dropWhile Char.isDigit))) := by
  have leftRun := (run_bytes (c :: rest)).1
  have rightRun := (run_bytes (d :: others)).1
  rw [bytes_of_isDigit left, List.takeWhile_cons_of_pos left] at leftRun
  rw [bytes_of_isDigit right, List.takeWhile_cons_of_pos right] at rightRun
  rw [bytes_of_isDigit left, bytes_of_isDigit right, walk, leftRun, rightRun, (run_bytes rest).2,
    (run_bytes others).2, (isDigitByte_of_isDigit left).1, (isDigitByte_of_isDigit right).1]
  rfl

theorem walk_of_ne (apart : c ≠ d) (plain : c.isDigit = false ∨ d.isDigit = false)
    (rest others : List Char) :
    walk (bytes (c :: rest)) (bytes (d :: others)) = compare c d := by
  have left := plain.imp isDigitByte_of_mem_utf8EncodeChar isDigitByte_of_mem_utf8EncodeChar
  rw [bytes_cons, bytes_cons]
  rcases Nat.lt_trichotomy c.toNat d.toNat with less | same | greater
  · rw [compare_eq_lt less]
    exact (walk_of_below (below_utf8EncodeChar less) left _ _).1
  · exact absurd (Char.toNat_inj.mp same) apart
  · rw [compare_eq_gt greater]
    exact (walk_of_below (below_utf8EncodeChar greater) left.symm _ _).2

theorem walk_self (plain : c.isDigit = false) (rest others : List Char) :
    walk (bytes (c :: rest)) (bytes (c :: others)) = walk (bytes rest) (bytes others) := by
  rw [bytes_cons, bytes_cons, walk_shared (isDigitByte_of_mem_utf8EncodeChar plain)]

theorem walk_bytes : ∀ left right : List Char, walk (bytes left) (bytes right) = order left right
  | [], [] => by
    rw [bytes, List.flatMap_nil, walk]
    rfl
  | [], d :: others => by
    obtain ⟨byte, more, encoded⟩ := exists_bytes_cons d others
    obtain ⟨piece, pieces, split⟩ := exists_pieces_cons d others
    rw [encoded, order, split, bytes, List.flatMap_nil, walk]
    rfl
  | c :: rest, [] => by
    obtain ⟨byte, more, encoded⟩ := exists_bytes_cons c rest
    obtain ⟨piece, pieces, split⟩ := exists_pieces_cons c rest
    rw [encoded, order, split, bytes, List.flatMap_nil, walk]
    rfl
  | c :: rest, d :: others => by
    by_cases digits : c.isDigit = true ∧ d.isDigit = true
    · obtain ⟨left, right⟩ := digits
      rw [walk_digits left right, order_digits left right, walk_bytes]
    · have plain : c.isDigit = false ∨ d.isDigit = false := by
        rwa [← Bool.and_eq_true, Bool.not_eq_true, Bool.and_eq_false_iff] at digits
      by_cases same : c = d
      · subst same
        rw [walk_self (or_self_iff.mp plain), order_self (or_self_iff.mp plain), walk_bytes]
      · rw [walk_of_ne same plain, order_of_ne same plain]
termination_by left => left.length
decreasing_by
  · exact Nat.lt_succ_of_le (List.dropWhile_sublist _).length_le
  · exact Nat.lt_succ_self _

end NaturalOrder

theorem naturalOrder_eq_walk (left right : String) : naturalOrder left right =
    NaturalOrder.walk left.toByteArray.data.toList right.toByteArray.data.toList := by
  rw [Text.toList_data_toByteArray, Text.toList_data_toByteArray, NaturalOrder.walk_bytes]
  rfl

theorem natural_order_linear (a b c : String) :
    naturalOrder a b =
        NaturalOrder.walk a.toByteArray.data.toList b.toByteArray.data.toList ∧
      (naturalOrder a b = .eq ↔ a.toByteArray = b.toByteArray) ∧
        naturalOrder b a = (naturalOrder a b).swap ∧
          (naturalOrder a b ≠ .gt → naturalOrder b c ≠ .gt → naturalOrder a c ≠ .gt) := by
  refine ⟨naturalOrder_eq_walk a b, ?_, Std.OrientedCmp.eq_swap, fun first second => ?_⟩
  · rw [Std.LawfulEqCmp.compare_eq_iff_eq, String.toByteArray_inj]
  · have notGreater := Ordering.ne_gt_iff_isLE.mp first
    have notGreater' := Ordering.ne_gt_iff_isLE.mp second
    exact Ordering.ne_gt_iff_isLE.mpr (Std.TransCmp.isLE_trans notGreater notGreater')

theorem natural_order_of_runs :
    naturalOrder "q2" "q02" ≠ .gt ∧ naturalOrder "q02" "q10" ≠ .gt ∧
      naturalOrder "q2" "q10" ≠ .gt := by
  have first : naturalOrder "q2" "q02" ≠ .gt := by decide +kernel
  have second : naturalOrder "q02" "q10" ≠ .gt := by decide +kernel
  exact ⟨first, second, (natural_order_linear "q2" "q02" "q10").2.2.2 first second⟩

end QueryContract
