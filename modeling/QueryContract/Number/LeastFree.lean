/-!
The least number that is not taken.
-/

namespace QueryContract.Number

/-- The least number from `first` on that is not taken, within a number of attempts. -/
def leastFree (taken : Nat → Bool) (first : Nat) : Nat → Nat
  | 0 => first
  | attempts + 1 => if taken first then leastFree taken (first + 1) attempts else first

theorem le_leastFree (taken : Nat → Bool) (first attempts : Nat) :
    first ≤ leastFree taken first attempts := by
  induction attempts generalizing first with
  | zero => simp [leastFree]
  | succ attempts ih =>
    simp only [leastFree]
    split
    · exact Nat.le_trans (Nat.le_succ first) (ih (first + 1))
    · exact Nat.le_refl first

theorem taken_of_lt_leastFree (taken : Nat → Bool) (first attempts n : Nat) (low : first ≤ n)
    (high : n < leastFree taken first attempts) : taken n = true := by
  induction attempts generalizing first with
  | zero => simp only [leastFree] at high; omega
  | succ attempts ih =>
    simp only [leastFree] at high
    split at high
    · rename_i here
      by_cases same : n = first
      · rw [same]; exact here
      · exact ih (first + 1) (by omega) high
    · omega

end QueryContract.Number
