import Mathlib.Data.List.TakeWhile
import QueryContract.NaturalOrder

/-!
Natural order is a linear order of texts: it compares the pieces of the texts by keys, and a text is
told by its pieces.
-/

namespace QueryContract

namespace NaturalOrder

instance : Std.TransCmp compareRuns :=
  inferInstanceAs (Std.TransCmp (compareLex (compareOn fun run => (significant run).length)
    (compareLex (compareOn significant) (compareOn List.length))))

theorem replicate_append_significant (run : List Char) :
    List.replicate (run.length - (significant run).length) '0' ++ significant run = run := by
  have parts : run.takeWhile (· == '0') ++ significant run = run :=
    List.takeWhile_append_dropWhile
  have zeros : run.takeWhile (· == '0') =
      List.replicate (run.takeWhile (· == '0')).length '0' :=
    List.eq_replicate_of_mem fun c member =>
      eq_of_beq (List.mem_takeWhile_imp (p := (· == '0')) member)
  have count : run.length - (significant run).length = (run.takeWhile (· == '0')).length := by
    have total := congrArg List.length parts
    rw [List.length_append] at total
    omega
  rw [count, ← zeros, parts]

instance : Std.LawfulEqCmp compareRuns where
  eq_of_compare {left right} h := by
    simp only [compareRuns, Ordering.then_eq_eq, Std.LawfulEqOrd.compare_eq_iff_eq] at h
    obtain ⟨-, digits, length⟩ := h
    rw [← replicate_append_significant left, ← replicate_append_significant right, digits, length]

namespace Piece

/-- The place of a piece among the characters. -/
def rank : Piece → Char
  | digits _ => '0'
  | other c => c

def isRun : Piece → Bool
  | digits _ => true
  | other _ => false

def run : Piece → List Char
  | digits run => run
  | other _ => []

def text : Piece → List Char
  | digits run => run
  | other c => [c]

/-- A character that stands by itself is no digit. -/
def Proper : Piece → Prop
  | digits _ => True
  | other c => c.isDigit = false

/-- The order of pieces, given by keys. -/
def keyed : Piece → Piece → Ordering :=
  compareLex (compareOn rank)
    (compareLex (compareOn isRun) fun left right => compareRuns left.run right.run)

instance : Std.TransCmp fun left right : Piece => compareRuns left.run right.run where
  eq_swap {_ _} := @Std.OrientedCmp.eq_swap _ compareRuns _ _ _
  isLE_trans {_ _ _} := @Std.TransCmp.isLE_trans _ compareRuns _ _ _ _

instance : Std.TransCmp keyed :=
  inferInstanceAs (Std.TransCmp (compareLex (compareOn rank)
    (compareLex (compareOn isRun) fun left right => compareRuns left.run right.run)))

instance : Std.LawfulEqCmp keyed where
  eq_of_compare {left right} h := by
    simp only [keyed, compareLex, compareOn, Ordering.then_eq_eq,
      Std.LawfulEqCmp.compare_eq_iff_eq] at h
    obtain ⟨ranks, kinds, runs⟩ := h
    cases left <;> cases right
    · exact congrArg digits runs
    · cases kinds
    · cases kinds
    · exact congrArg other ranks

theorem compare_eq_keyed {left right : Piece} (hl : left.Proper) (hr : right.Proper) :
    left.compare right = keyed left right := by
  have apart {c : Char} (plain : c.isDigit = false) : c ≠ '0' := by
    rintro rfl
    cases plain
  cases left with
  | digits left =>
    cases right with
    | digits right => rfl
    | other c =>
      have ranks : Ord.compare '0' c ≠ .eq := fun same =>
        apart hr (Std.LawfulEqOrd.eq_of_compare same).symm
      simp only [Piece.compare, keyed, compareLex, compareOn, rank]
      cases order : Ord.compare '0' c with
      | eq => exact absurd order ranks
      | _ => rfl
  | other c =>
    cases right with
    | digits right =>
      have ranks : Ord.compare c '0' ≠ .eq := fun same =>
        apart hl (Std.LawfulEqOrd.eq_of_compare same)
      simp only [Piece.compare, keyed, compareLex, compareOn, rank]
      cases order : Ord.compare c '0' with
      | eq => exact absurd order ranks
      | _ => rfl
    | other d =>
      simp only [Piece.compare, keyed, compareLex, compareOn, rank]
      cases Ord.compare c d <;> rfl

end Piece

theorem flatMap_text_addDigit (c : Char) (pieces : List Piece) :
    (addDigit c pieces).flatMap Piece.text = c :: pieces.flatMap Piece.text := by
  unfold addDigit
  split <;> rfl

theorem flatMap_text_pieces (text : List Char) : (pieces text).flatMap Piece.text = text := by
  induction text with
  | nil => rfl
  | cons c rest ih =>
    rw [pieces]
    split
    · rw [flatMap_text_addDigit, ih]
    · rw [List.flatMap_cons, ih]
      rfl

theorem pieces_injective {left right : List Char} (h : pieces left = pieces right) :
    left = right := by
  rw [← flatMap_text_pieces left, h, flatMap_text_pieces]

theorem proper_addDigit {c : Char} {pieces : List Piece} (h : ∀ piece ∈ pieces, piece.Proper) :
    ∀ piece ∈ addDigit c pieces, piece.Proper := by
  unfold addDigit
  split
  · exact List.forall_mem_cons.mpr ⟨trivial, (List.forall_mem_cons.mp h).2⟩
  · exact List.forall_mem_cons.mpr ⟨trivial, h⟩

theorem proper_of_mem_pieces (text : List Char) : ∀ piece ∈ pieces text, piece.Proper := by
  induction text with
  | nil => simp [pieces]
  | cons c rest ih =>
    rw [pieces]
    split
    · exact proper_addDigit ih
    · rename_i plain
      exact List.forall_mem_cons.mpr ⟨Bool.eq_false_iff.mpr plain, ih⟩

theorem compareLex_compare_eq {left right : List Piece} (hl : ∀ piece ∈ left, piece.Proper)
    (hr : ∀ piece ∈ right, piece.Proper) :
    List.compareLex Piece.compare left right = List.compareLex Piece.keyed left right := by
  induction left generalizing right with
  | nil => cases right <;> rfl
  | cons first rest ih =>
    cases right with
    | nil => rfl
    | cons other others =>
      obtain ⟨head, tail⟩ := List.forall_mem_cons.mp hl
      obtain ⟨head', tail'⟩ := List.forall_mem_cons.mp hr
      rw [List.compareLex_cons_cons, List.compareLex_cons_cons, ih tail tail',
        Piece.compare_eq_keyed head head']

end NaturalOrder

open NaturalOrder

theorem naturalOrder_eq_keyed (left right : String) : naturalOrder left right =
    List.compareLex Piece.keyed (pieces left.toList) (pieces right.toList) :=
  compareLex_compare_eq (proper_of_mem_pieces _) (proper_of_mem_pieces _)

instance : Std.TransCmp naturalOrder where
  eq_swap {left right} := by
    rw [naturalOrder_eq_keyed, naturalOrder_eq_keyed]
    exact Std.OrientedCmp.eq_swap
  isLE_trans {left middle right} := by
    rw [naturalOrder_eq_keyed, naturalOrder_eq_keyed, naturalOrder_eq_keyed]
    exact Std.TransCmp.isLE_trans

instance : Std.LawfulEqCmp naturalOrder where
  eq_of_compare {left right} h := by
    rw [naturalOrder_eq_keyed] at h
    exact String.toList_injective (pieces_injective (Std.LawfulEqCmp.eq_of_compare h))

end QueryContract
