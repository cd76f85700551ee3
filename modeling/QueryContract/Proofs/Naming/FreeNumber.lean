import QueryContract.Contract.Naming
import QueryContract.Proofs.Association
import QueryContract.Proofs.Text.Ascii

/-!
The search for a free number finds one. A name under a number is taken only if an earlier name holds
it, and more numbers are tried than names are held.
-/

namespace QueryContract

namespace Number

/-- A search that ends on a taken number has used up its attempts. -/
theorem leastFree_eq_of_taken (taken : Nat → Bool) (first attempts : Nat)
    (h : taken (leastFree taken first attempts) = true) :
    leastFree taken first attempts = first + attempts := by
  induction attempts generalizing first with
  | zero => rfl
  | succ attempts ih =>
    simp only [leastFree] at h ⊢
    split at h
    · rename_i here
      have rest := ih (first + 1) h
      rw [if_pos here]
      omega
    · rename_i here
      exact absurd h here

def numberedFrom {κ : Type} (numbered : Nat → κ) (first count : Nat) : List κ :=
  (List.range' first count).map numbered

theorem length_numberedFrom {κ : Type} (numbered : Nat → κ) (first count : Nat) :
    (numberedFrom numbered first count).length = count := by
  rw [numberedFrom, List.length_map, List.length_range']

theorem mem_numberedFrom_iff {κ : Type} {numbered : Nat → κ} {first count : Nat} {key : κ} :
    key ∈ numberedFrom numbered first count ↔
      ∃ n, first ≤ n ∧ n < first + count ∧ numbered n = key := by
  simp only [numberedFrom, List.mem_map, List.mem_range'_1, and_assoc]

theorem nodup_numberedFrom {κ : Type} {numbered : Nat → κ}
    (injective : ∀ m n, numbered m = numbered n → m = n) (first count : Nat) :
    (numberedFrom numbered first count).Nodup := by
  rw [numberedFrom, List.Nodup, List.pairwise_map]
  exact (List.nodup_range' (s := first) (n := count)).imp
    fun different same => different (injective _ _ same)

/-- With at least as many attempts as keys are held, the search ends on a free number. -/
theorem leastFree_free {κ : Type} (numbered : Nat → κ)
    (injective : ∀ m n, numbered m = numbered n → m = n) (held : List κ)
    (taken : Nat → Bool) (only : ∀ n, taken n = true → numbered n ∈ held)
    (first attempts : Nat) (enough : held.length ≤ attempts) :
    taken (leastFree taken first attempts) = false := by
  apply Bool.eq_false_iff.mpr
  intro found
  have last := leastFree_eq_of_taken taken first attempts found
  have all : ∀ n, first ≤ n → n ≤ first + attempts → taken n = true := by
    intro n low high
    by_cases same : n = first + attempts
    · rw [same, ← last]
      exact found
    · exact taken_of_lt_leastFree taken first attempts n low (by omega)
  have inside : numberedFrom numbered first (attempts + 1) ⊆ held := by
    intro key member
    obtain ⟨n, low, high, rfl⟩ := mem_numberedFrom_iff.mp member
    exact only n (all n low (by omega))
  have count := (nodup_numberedFrom injective first (attempts + 1)).length_le_of_subset inside
  rw [length_numberedFrom] at count
  omega

/-- No search goes past a number that is free. -/
theorem leastFree_le_of_free {taken : Nat → Bool} {first attempts : Nat}
    (free : taken (leastFree taken first attempts) = false) (others : Nat) :
    leastFree taken first others ≤ leastFree taken first attempts := by
  apply Nat.le_of_not_lt
  intro above
  have low := le_leastFree taken first attempts
  have passed := taken_of_lt_leastFree taken first others _ low above
  rw [free] at passed
  cases passed

theorem leastFree_eq_of_free {taken : Nat → Bool} {first attempts others : Nat}
    (free : taken (leastFree taken first attempts) = false)
    (free' : taken (leastFree taken first others) = false) :
    leastFree taken first attempts = leastFree taken first others :=
  Nat.le_antisymm (leastFree_le_of_free free' attempts) (leastFree_le_of_free free others)

/-- The search ends before it has tried as many numbers as keys are held, if one of those keys goes
    with no number. -/
theorem leastFree_lt_add_length {κ : Type} {numbered : Nat → κ}
    (injective : ∀ m n, numbered m = numbered n → m = n) {held : List κ} {taken : Nat → Bool}
    (only : ∀ n, taken n = true → numbered n ∈ held) {wanted : κ} (member : wanted ∈ held)
    (apart : ∀ n, numbered n ≠ wanted) (first attempts : Nat) :
    leastFree taken first attempts < first + held.length := by
  let count := leastFree taken first attempts - first
  have inside : wanted :: numberedFrom numbered first count ⊆ held := by
    refine List.cons_subset.mpr ⟨member, fun key among => ?_⟩
    obtain ⟨n, low, high, rfl⟩ := mem_numberedFrom_iff.mp among
    exact only n (taken_of_lt_leastFree taken first attempts n low (by omega))
  have distinct : (wanted :: numberedFrom numbered first count).Nodup := by
    refine List.nodup_cons.mpr ⟨fun among => ?_, nodup_numberedFrom injective first count⟩
    obtain ⟨n, -, -, same⟩ := mem_numberedFrom_iff.mp among
    exact apart n same
  have bound := distinct.length_le_of_subset inside
  rw [List.length_cons, length_numberedFrom] at bound
  omega

theorem showNat_injective (m n : Nat) (h : showNat m = showNat n) : m = n := by
  have digits : Nat.toDigits 10 m = Nat.toDigits 10 n := String.ofList_injective h
  have value := congrArg (fun digits => Nat.ofDigitChars 10 digits 0) digits
  simpa only [Nat.ofDigitChars_ten_toDigits] using value

theorem isDigit_of_mem_showNat {c : Char} {n : Nat} (h : c ∈ (showNat n).toList) :
    c.isDigit = true := by
  rw [showNat, String.toList_ofList] at h
  exact Nat.isDigit_of_mem_toDigits (by decide) (by decide) h

end Number

namespace Naming

open Text (lowercase)

theorem Holders.taken_eq_true_iff (holders : Holders) (key : String) :
    holders.taken key = true ↔ key ∈ holders.map Prod.fst := Association.isSome_lookup_iff

/-- The chosen name is the wanted one or a numbered one, and no one holds it. -/
theorem choose_free (key : String → String) (numbered : Nat → String) (wanted : String)
    (holders : Holders) (injective : ∀ m n, key (numbered m) = key (numbered n) → m = n) :
    key (choose key numbered wanted holders).1 ∉ holders.map Prod.fst := by
  rw [← Holders.taken_eq_true_iff, Bool.not_eq_true]
  unfold choose
  split
  · rename_i absent
    rw [Holders.taken, absent]
    rfl
  · exact Number.leastFree_free (fun n => key (numbered n)) injective (holders.map Prod.fst) _
      (fun n h => (Holders.taken_eq_true_iff holders _).mp h) 2 holders.length (by simp)

theorem choose_cases (key : String → String) (numbered : Nat → String) (wanted : String)
    (holders : Holders) :
    (choose key numbered wanted holders).1 = wanted ∨
      ∃ n, (choose key numbered wanted holders).1 = numbered n := by
  unfold choose
  split
  · exact .inl rfl
  · exact .inr ⟨_, rfl⟩

theorem methodKey_append (left right : String) :
    methodKey (left ++ right) = methodKey left ++ methodKey right := by
  simp [methodKey, Text.lowercase_append, String.ofList_append]

theorem methodKey_showNat (n : Nat) : methodKey (Number.showNat n) = Number.showNat n := by
  have same : lowercase (Number.showNat n).toList = (Number.showNat n).toList := by
    refine (List.map_congr_left fun c member => ?_).trans (List.map_id _)
    exact Text.toLower_of_isDigit (Number.isDigit_of_mem_showNat member)
  rw [methodKey, same, String.ofList_toList]

theorem chooseIdentifier_free (holders : Holders) (wanted : String) :
    (chooseIdentifier holders wanted).1 ∉ holders.map Prod.fst := by
  apply choose_free id _ wanted holders
  intro m n same
  exact Number.showNat_injective m n (String.append_right_inj _ |>.mp same)

theorem chooseMethod_free (holders : Holders) (wanted : String) :
    methodKey (chooseMethod holders wanted).1 ∉ holders.map Prod.fst := by
  apply choose_free methodKey _ wanted holders
  intro m n same
  simp only [methodKey_append, methodKey_showNat] at same
  exact Number.showNat_injective m n (String.append_right_inj _ |>.mp same)

end Naming

end QueryContract
