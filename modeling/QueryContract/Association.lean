/-!
Associations of values with keys. The keys stand in the order in which they came in, and none stands
twice: a value for a known key takes the place of the earlier one.
-/

namespace QueryContract

@[ext] structure Association (κ ν : Type) where
  pairs : List (κ × ν)
  distinct : (pairs.map Prod.fst).Nodup
  deriving DecidableEq, Repr

namespace Association

def empty : Association κ ν := ⟨[], List.nodup_nil⟩

def keys (association : Association κ ν) : List κ := association.pairs.map Prod.fst

def isEmpty (association : Association κ ν) : Bool := association.pairs.isEmpty

variable [DecidableEq κ]

def get? (association : Association κ ν) (key : κ) : Option ν := association.pairs.lookup key

def contains (association : Association κ ν) (key : κ) : Bool := (association.get? key).isSome

/-- Puts a pair in place of the one with its key, else at the end. -/
def putPair (key : κ) (value : ν) : List (κ × ν) → List (κ × ν)
  | [] => [(key, value)]
  | (k, v) :: rest => if k = key then (key, value) :: rest else (k, v) :: putPair key value rest

theorem keys_putPair (key : κ) (value : ν) (pairs : List (κ × ν)) :
    (putPair key value pairs).map Prod.fst =
      if key ∈ pairs.map Prod.fst then pairs.map Prod.fst else pairs.map Prod.fst ++ [key] := by
  induction pairs with
  | nil => simp [putPair]
  | cons pair rest ih =>
    obtain ⟨k, v⟩ := pair
    by_cases hk : k = key
    · simp [putPair, hk]
    · have hk' : ¬ key = k := fun h => hk h.symm
      simp only [putPair, if_neg hk, List.map_cons, ih, List.mem_cons, hk', false_or]
      split <;> rfl

theorem distinct_putPair (key : κ) (value : ν) {pairs : List (κ × ν)}
    (distinct : (pairs.map Prod.fst).Nodup) :
    ((putPair key value pairs).map Prod.fst).Nodup := by
  rw [keys_putPair]
  split
  · exact distinct
  · rename_i absent
    refine List.nodup_append.mpr ⟨distinct, by simp, ?_⟩
    intro other member last lastMember same
    rw [List.mem_singleton.mp lastMember] at same
    exact absent (same ▸ member)

theorem lookup_cons_of_ne {key k : κ} (h : key ≠ k) (v : ν) (rest : List (κ × ν)) :
    ((k, v) :: rest).lookup key = rest.lookup key := by
  rw [List.lookup_cons, beq_false_of_ne h]

theorem lookup_putPair (key other : κ) (value : ν) (pairs : List (κ × ν)) :
    (putPair key value pairs).lookup other =
      if other = key then some value else pairs.lookup other := by
  induction pairs with
  | nil =>
    by_cases ho : other = key
    · simp [putPair, ho]
    · rw [putPair, lookup_cons_of_ne ho, if_neg ho]
  | cons pair rest ih =>
    obtain ⟨k, v⟩ := pair
    by_cases hk : k = key
    · subst hk
      by_cases ho : other = k
      · simp [putPair, ho]
      · rw [putPair, if_pos rfl, lookup_cons_of_ne ho, lookup_cons_of_ne ho, if_neg ho]
    · by_cases ho : other = k
      · subst ho
        simp [putPair, hk]
      · rw [putPair, if_neg hk, lookup_cons_of_ne ho, lookup_cons_of_ne ho, ih]

def put (key : κ) (value : ν) (association : Association κ ν) : Association κ ν :=
  ⟨putPair key value association.pairs, distinct_putPair key value association.distinct⟩

def erase (key : κ) (association : Association κ ν) : Association κ ν :=
  ⟨association.pairs.filter fun pair => pair.1 ≠ key,
    association.distinct.sublist (List.filter_sublist.map Prod.fst)⟩

def ofList (pairs : List (κ × ν)) : Association κ ν :=
  pairs.foldl (fun built (key, value) => built.put key value) empty

@[simp] theorem get?_empty (key : κ) : (empty : Association κ ν).get? key = none := rfl

theorem keys_put (key : κ) (value : ν) (association : Association κ ν) :
    (association.put key value).keys =
      if key ∈ association.keys then association.keys else association.keys ++ [key] :=
  keys_putPair key value association.pairs

theorem get?_put (key other : κ) (value : ν) (association : Association κ ν) :
    (association.put key value).get? other =
      if other = key then some value else association.get? other :=
  lookup_putPair key other value association.pairs

theorem get?_eq_some_iff (association : Association κ ν) (key : κ) (value : ν) :
    association.get? key = some value ↔ (key, value) ∈ association.pairs := by
  obtain ⟨pairs, distinct⟩ := association
  simp only [get?]
  induction pairs with
  | nil => simp
  | cons pair rest ih =>
    obtain ⟨k, v⟩ := pair
    simp only [List.map_cons, List.nodup_cons, List.mem_map] at distinct
    by_cases hk : key = k
    · subst hk
      have absent : (key, value) ∉ rest := fun member => distinct.1 ⟨_, member, rfl⟩
      simp [absent, eq_comm]
    · rw [lookup_cons_of_ne hk, ih distinct.2]
      simp [hk]

end Association

end QueryContract
