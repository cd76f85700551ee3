import QueryContract.Proofs.Number.Digits
import QueryContract.Proofs.Number.Grammar
import QueryContract.Proofs.Text.NaturalWalk

/-!
Runs of digits in natural order. No run is read as a number: how many digits are left without the
leading zeros, and which ones, tells which of two runs writes the greater number. A front that two
texts share does not matter, whatever runs it holds itself.
-/

namespace QueryContract

namespace NaturalOrder

open Number (IsNumeral digitsValue digitsValue_cons digitsValue_lt)

variable {left right run front : List Char} {c d : Char}

theorem digitsValue_cons_lt (digits : ∀ c ∈ left, c.isDigit = true) (digit : c.isDigit = true)
    (less : c.toNat < d.toNat) (same : left.length = right.length) :
    digitsValue (c :: left) < digitsValue (d :: right) := by
  have range : 48 ≤ c.toNat ∧ c.toNat ≤ 57 := Char.isDigit_iff_toNat.mp digit
  have below := digitsValue_lt digits
  have lead : (c.toNat - 48 + 1) * 10 ^ left.length ≤ (d.toNat - 48) * 10 ^ left.length :=
    Nat.mul_le_mul_right _ (by omega)
  rw [Nat.add_mul, Nat.one_mul] at lead
  rw [digitsValue_cons, digitsValue_cons, ← same]
  omega

/-- Of two runs of one length the first different digit decides, as it does for the numbers. -/
theorem compare_of_length_eq (hl : ∀ c ∈ left, c.isDigit = true)
    (hr : ∀ c ∈ right, c.isDigit = true) (same : left.length = right.length) :
    compare left right = compare (digitsValue left) (digitsValue right) := by
  induction left generalizing right with
  | nil =>
    obtain rfl := List.length_eq_zero_iff.mp same.symm
    rfl
  | cons c rest ih =>
    cases right with
    | nil => cases same
    | cons d others =>
      obtain ⟨digit, tail⟩ := List.forall_mem_cons.mp hl
      obtain ⟨digit', tail'⟩ := List.forall_mem_cons.mp hr
      have lengths : rest.length = others.length := Nat.succ.inj same
      rw [List.compare_cons_cons]
      rcases Nat.lt_trichotomy c.toNat d.toNat with less | equal | greater
      · rw [compare_eq_lt less, Nat.compare_eq_lt.mpr (digitsValue_cons_lt tail digit less lengths)]
        rfl
      · obtain rfl := Char.toNat_inj.mp equal
        rw [Std.ReflOrd.compare_self, Ordering.eq_then, ih tail tail' lengths, digitsValue_cons,
          digitsValue_cons, lengths]
        simp only [Nat.compare_eq_ite_lt, Nat.add_lt_add_iff_left]
      · have larger := digitsValue_cons_lt tail' digit' greater lengths.symm
        rw [compare_eq_gt greater, Nat.compare_eq_gt.mpr larger]
        rfl

/-- A run that does not start with a zero writes a greater number than every shorter run. -/
theorem digitsValue_lt_of_length_lt (hl : ∀ c ∈ left, c.isDigit = true)
    (hr : ∀ c ∈ right, c.isDigit = true) (solid : right.head? ≠ some '0')
    (shorter : left.length < right.length) : digitsValue left < digitsValue right := by
  cases right with
  | nil => cases shorter
  | cons d others =>
    have range : 48 ≤ d.toNat ∧ d.toNat ≤ 57 :=
      Char.isDigit_iff_toNat.mp (hr d List.mem_cons_self)
    have positive : d.toNat ≠ 48 := fun zero =>
      solid (congrArg some (Char.toNat_inj.mp zero))
    calc digitsValue left
        < 10 ^ left.length := digitsValue_lt hl
      _ ≤ 10 ^ others.length := Nat.pow_le_pow_right (by decide) (Nat.le_of_lt_succ shorter)
      _ ≤ (d.toNat - 48) * 10 ^ others.length := Nat.le_mul_of_pos_left _ (by omega)
      _ ≤ digitsValue (d :: others) := by
        rw [digitsValue_cons]
        exact Nat.le_add_right _ _

theorem compare_solid (hl : ∀ c ∈ left, c.isDigit = true) (hr : ∀ c ∈ right, c.isDigit = true)
    (solidLeft : left.head? ≠ some '0') (solidRight : right.head? ≠ some '0') :
    (compare left.length right.length).then (compare left right) =
      compare (digitsValue left) (digitsValue right) := by
  rcases Nat.lt_trichotomy left.length right.length with less | same | greater
  · have value := digitsValue_lt_of_length_lt hl hr solidRight less
    rw [Nat.compare_eq_lt.mpr less, Nat.compare_eq_lt.mpr value]
    rfl
  · rw [Nat.compare_eq_eq.mpr same, Ordering.eq_then, compare_of_length_eq hl hr same]
  · have value := digitsValue_lt_of_length_lt hr hl solidLeft greater
    rw [Nat.compare_eq_gt.mpr greater, Nat.compare_eq_gt.mpr value]
    rfl

theorem head?_significant (run : List Char) : (significant run).head? ≠ some '0' := by
  intro zero
  have stop := List.head?_dropWhile_not (· == '0') run
  rw [significant] at zero
  rw [zero] at stop
  cases stop

theorem digitsValue_significant (run : List Char) :
    digitsValue (significant run) = digitsValue run := by
  conv_rhs => rw [← replicate_append_significant run, Number.digitsValue_zeros_append]

/-- Runs of digits compare by the numbers that they write, and then by their lengths. -/
theorem compareRuns_eq (hl : ∀ c ∈ left, c.isDigit = true) (hr : ∀ c ∈ right, c.isDigit = true) :
    compareRuns left right =
      (compare (digitsValue left) (digitsValue right)).then
        (compare left.length right.length) := by
  have subset (run : List Char) : significant run ⊆ run := (List.dropWhile_sublist _).subset
  have solid := compare_solid (fun c member => hl c (subset left member))
    (fun c member => hr c (subset right member)) (head?_significant left) (head?_significant right)
  rw [digitsValue_significant, digitsValue_significant] at solid
  rw [compareRuns, ← Ordering.then_assoc, solid]

theorem addDigit_append {pieces : List Piece} (some : pieces ≠ []) (c : Char) (more : List Piece) :
    addDigit c (pieces ++ more) = addDigit c pieces ++ more := by
  cases pieces with
  | nil => exact absurd rfl some
  | cons piece rest => cases piece <;> rfl

/-- No run goes on over the end of a text that does not end in a digit. -/
theorem pieces_append (ended : ∀ c ∈ front.getLast?, c.isDigit = false) (rest : List Char) :
    pieces (front ++ rest) = pieces front ++ pieces rest := by
  induction front with
  | nil => rfl
  | cons c later ih =>
    cases later with
    | nil =>
      have plain : c.isDigit = false := ended c rfl
      rw [List.singleton_append, pieces_of_not_isDigit plain, pieces_of_not_isDigit plain]
      rfl
    | cons d others =>
      have some : pieces (d :: others) ≠ [] := by
        obtain ⟨piece, more, split⟩ := exists_pieces_cons d others
        simp [split]
      have tail := ih ended
      cases digit : c.isDigit with
      | true =>
        rw [List.cons_append, pieces, if_pos digit, tail, pieces.eq_2 c, if_pos digit]
        exact addDigit_append some c _
      | false =>
        rw [List.cons_append, pieces_of_not_isDigit digit, pieces_of_not_isDigit digit, tail]
        rfl

theorem compareLex_append (shared left right : List Piece) :
    List.compareLex Piece.compare (shared ++ left) (shared ++ right) =
      List.compareLex Piece.compare left right := by
  induction shared with
  | nil => rfl
  | cons piece rest ih =>
    have itself : piece.compare piece = .eq := by
      cases piece with
      | digits run =>
        show compareRuns run run = .eq
        exact Std.ReflCmp.compare_self
      | other c => exact Std.ReflOrd.compare_self
    rw [List.cons_append, List.cons_append, List.compareLex_cons_cons, itself, ih]
    rfl

theorem order_append (ended : ∀ c ∈ front.getLast?, c.isDigit = false) (left right : List Char) :
    order (front ++ left) (front ++ right) = order left right := by
  rw [order, order, pieces_append ended, pieces_append ended, compareLex_append]

/-- Runs at the front of two texts decide before all that comes after them. -/
theorem order_runs (hl : IsNumeral left) (hr : IsNumeral right) {rest others : List Char}
    (stop : ∀ c ∈ rest.head?, c.isDigit = false) (stop' : ∀ c ∈ others.head?, c.isDigit = false) :
    order (left ++ rest) (right ++ others) = (compareRuns left right).then (order rest others) := by
  obtain ⟨c, digits, rfl⟩ := List.exists_cons_of_ne_nil hl.1
  obtain ⟨d, digits', rfl⟩ := List.exists_cons_of_ne_nil hr.1
  obtain ⟨digit, tail⟩ := List.forall_mem_cons.mp hl.2
  obtain ⟨digit', tail'⟩ := List.forall_mem_cons.mp hr.2
  rw [List.cons_append, List.cons_append, order_digits digit digit',
    takeWhile_append_of_stop tail stop, takeWhile_append_of_stop tail' stop',
    dropWhile_append_of_stop tail stop, dropWhile_append_of_stop tail' stop']

end NaturalOrder

open Number (IsNumeral digitsValue)
open NaturalOrder (compareRuns_eq order_append order_runs)

variable {before left right after later : String}

theorem naturalOrder_of_digit_runs (ended : ∀ c ∈ before.toList.getLast?, c.isDigit = false)
    (hl : IsNumeral left.toList) (hr : IsNumeral right.toList)
    (stop : ∀ c ∈ after.toList.head?, c.isDigit = false)
    (stop' : ∀ c ∈ later.toList.head?, c.isDigit = false) :
    naturalOrder (before ++ left ++ after) (before ++ right ++ later) =
      (compare (digitsValue left.toList) (digitsValue right.toList)).then
        ((compare left.length right.length).then (naturalOrder after later)) := by
  have same := order_append ended (left.toList ++ after.toList) (right.toList ++ later.toList)
  rw [order_runs hl hr stop stop', compareRuns_eq hl.2 hr.2, Ordering.then_assoc] at same
  rw [← List.append_assoc, ← List.append_assoc, ← String.toList_append, ← String.toList_append,
    ← String.toList_append, ← String.toList_append] at same
  exact same

/-- Behind a shared front that does not end in a digit, the run that writes the lesser number comes
    first, and of two that write one number the shorter one. Texts with one run there compare by
    what comes after it. -/
theorem digit_runs_compare_by_value (ended : ∀ c ∈ before.toList.getLast?, c.isDigit = false)
    (hl : IsNumeral left.toList) (hr : IsNumeral right.toList)
    (stop : ∀ c ∈ after.toList.head?, c.isDigit = false)
    (stop' : ∀ c ∈ later.toList.head?, c.isDigit = false) :
    let ordered := naturalOrder (before ++ left ++ after) (before ++ right ++ later)
    (digitsValue left.toList < digitsValue right.toList → ordered = .lt) ∧
      (digitsValue left.toList = digitsValue right.toList → left.length < right.length →
        ordered = .lt) ∧
      (left = right → ordered = naturalOrder after later) := by
  intro ordered
  have decided : ordered = _ := naturalOrder_of_digit_runs ended hl hr stop stop'
  rw [decided]
  refine ⟨fun less => ?_, fun equal shorter => ?_, fun same => ?_⟩
  · rw [Nat.compare_eq_lt.mpr less]
    rfl
  · rw [Nat.compare_eq_eq.mpr equal, Nat.compare_eq_lt.mpr shorter]
    rfl
  · rw [same, Nat.compare_eq_eq.mpr rfl, Nat.compare_eq_eq.mpr rfl]
    rfl

/-- The greater run is the shorter text, and the shared front ends right behind a run. -/
theorem digit_runs_of_versions :
    (∀ c ∈ "v10.q".toList.getLast?, c.isDigit = false) ∧ IsNumeral "0099".toList ∧
      IsNumeral "100".toList ∧ (∀ c ∈ ".b".toList.head?, c.isDigit = false) ∧
      (∀ c ∈ "".toList.head?, c.isDigit = false) ∧
      digitsValue "0099".toList < digitsValue "100".toList ∧
      naturalOrder ("v10.q" ++ "0099" ++ ".b") ("v10.q" ++ "100" ++ "") = .lt := by
  have ended : ∀ c ∈ "v10.q".toList.getLast?, c.isDigit = false := by simp
  have left : IsNumeral "0099".toList := ⟨by decide, by simp⟩
  have right : IsNumeral "100".toList := ⟨by decide, by simp⟩
  have stop : ∀ c ∈ ".b".toList.head?, c.isDigit = false := by simp
  have stop' : ∀ c ∈ "".toList.head?, c.isDigit = false := by simp
  have less : digitsValue "0099".toList < digitsValue "100".toList := by decide
  exact ⟨ended, left, right, stop, stop', less,
    (digit_runs_compare_by_value ended left right stop stop').1 less⟩

end QueryContract
