import QueryContract.Association

/-!
Keys of associations: which are held, and what a new key changes.
-/

namespace QueryContract.Association

variable {κ ν : Type} [DecidableEq κ] {key : κ} {association : Association κ ν}

theorem isSome_lookup_iff {pairs : List (κ × ν)} :
    (pairs.lookup key).isSome = true ↔ key ∈ pairs.map Prod.fst := by
  simp only [List.lookup_isSome_iff, List.mem_map, beq_iff_eq]
  constructor
  · rintro ⟨pair, member, rfl⟩
    exact ⟨pair, member, rfl⟩
  · rintro ⟨pair, member, rfl⟩
    exact ⟨pair, member, rfl⟩

theorem isSome_get?_iff : (association.get? key).isSome = true ↔ key ∈ association.keys :=
  isSome_lookup_iff

theorem contains_eq_false_iff : association.contains key = false ↔ key ∉ association.keys := by
  rw [contains, Bool.eq_false_iff, ne_eq, isSome_get?_iff]

theorem pairs_eq_map {value : κ → ν}
    (h : ∀ key ∈ association.keys, association.get? key = some (value key)) :
    association.pairs = association.keys.map fun key => (key, value key) := by
  rw [keys, List.map_map]
  refine (List.map_id' association.pairs).symm.trans (List.map_congr_left ?_)
  rintro ⟨key, held⟩ member
  have found := (get?_eq_some_iff _ _ _).mpr member
  have expected := h key (List.mem_map_of_mem member)
  rw [found] at expected
  cases expected
  rfl

theorem keys_put_eq_eraseDups {names : List κ}
    (h : association.keys = names.eraseDups) (key : κ) (value : ν) :
    (association.put key value).keys = (names ++ [key]).eraseDups := by
  rw [keys_put, List.eraseDups_append, h]
  by_cases known : key ∈ names
  · simp [known, List.removeAll]
  · simp [known, List.removeAll, List.eraseDups_cons]

theorem putPair_of_absent {pairs : List (κ × ν)} (h : key ∉ pairs.map Prod.fst) (value : ν) :
    putPair key value pairs = pairs ++ [(key, value)] := by
  induction pairs with
  | nil => rfl
  | cons pair rest ih =>
    obtain ⟨k, v⟩ := pair
    rw [List.map_cons, List.mem_cons, not_or] at h
    rw [putPair, if_neg (Ne.symm h.1), ih h.2, List.cons_append]

theorem pairs_put_of_absent (h : association.contains key = false) (value : ν) :
    (association.put key value).pairs = association.pairs ++ [(key, value)] :=
  putPair_of_absent (contains_eq_false_iff.mp h) value

theorem pairs_foldl_put (first : Association κ ν) {pairs : List (κ × ν)}
    (distinct : ((first.pairs ++ pairs).map Prod.fst).Nodup) :
    (pairs.foldl (fun built (key, value) => built.put key value) first).pairs =
      first.pairs ++ pairs := by
  induction pairs generalizing first with
  | nil => exact (List.append_nil _).symm
  | cons pair rest ih =>
    obtain ⟨key, value⟩ := pair
    have absent : first.contains key = false := by
      rw [contains_eq_false_iff, keys]
      rw [List.map_append, List.map_cons] at distinct
      exact fun known => (List.nodup_append.mp distinct).2.2 key known key List.mem_cons_self rfl
    have longer := pairs_put_of_absent absent value
    rw [List.append_cons, ← longer] at distinct ⊢
    exact ih _ distinct

/-- Pairs with distinct keys are kept as they are. -/
theorem ofList_pairs (association : Association κ ν) : ofList association.pairs = association :=
  Association.ext (pairs_foldl_put empty association.distinct)

theorem erase_put_of_absent (h : association.contains key = false) (value : ν) :
    (association.put key value).erase key = association := by
  have others : association.pairs.filter (fun pair => pair.1 ≠ key) = association.pairs := by
    rw [List.filter_eq_self]
    intro pair member
    refine decide_eq_true fun same => contains_eq_false_iff.mp h ?_
    exact same ▸ List.mem_map_of_mem member
  apply Association.ext
  change (association.put key value).pairs.filter (fun pair => pair.1 ≠ key) = association.pairs
  rw [pairs_put_of_absent h, List.filter_append, others]
  simp

theorem putPair_of_mem {pairs : List (κ × ν)} {value : ν}
    (distinct : (pairs.map Prod.fst).Nodup) (h : (key, value) ∈ pairs) :
    putPair key value pairs = pairs := by
  induction pairs with
  | nil => cases h
  | cons pair rest ih =>
    obtain ⟨k, v⟩ := pair
    rw [List.map_cons, List.nodup_cons] at distinct
    rcases List.mem_cons.mp h with same | member
    · cases same
      rw [putPair, if_pos rfl]
    · have apart : k ≠ key := by
        rintro rfl
        exact distinct.1 (List.mem_map.mpr ⟨_, member, rfl⟩)
      rw [putPair, if_neg apart, ih distinct.2 member]

/-- Nothing changes when a key gets the value that it has. -/
theorem put_of_get? {value : ν} (h : association.get? key = some value) :
    association.put key value = association :=
  Association.ext (putPair_of_mem association.distinct ((get?_eq_some_iff _ _ _).mp h))

end QueryContract.Association
