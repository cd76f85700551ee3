import Mathlib.Data.List.MinMax
import Mathlib.Data.List.Nodup
import Mathlib.Order.Nat
import QueryContract.Proofs.Files.Scanning
import QueryContract.Proofs.Text.Encoding

/-!
A scan as a walk. A directory is walked depth first: the directory itself, and then, in the order of
the bytes of their names, everything that lies in it. A walk meets everything below the directory
once, in the order of places, and a scan finds the declaration files that the walk meets.
-/

namespace QueryContract

/-- The order of places: name by name, and each name by its bytes. -/
def Location.byteOrder (left right : Location) : Ordering :=
  compare (left.map fun name => Text.bytes name.toList)
    (right.map fun name => Text.bytes name.toList)

namespace Location

variable {left right : Location} {name other : String}

@[simp] theorem byteOrder_cons_cons : byteOrder (name :: left) (other :: right) =
    (compare (Text.bytes name.toList) (Text.bytes other.toList)).then (byteOrder left right) := by
  simp only [byteOrder, List.map_cons, List.compare_cons_cons]

theorem byteOrder_nil_cons : byteOrder [] (name :: right) = .lt := rfl

theorem byteOrder_eq_placeOrder : byteOrder left right = Sources.placeOrder left right := by
  induction left generalizing right with
  | nil => cases right <;> rfl
  | cons name left ih =>
    cases right with
    | nil => rfl
    | cons other right =>
      rw [byteOrder_cons_cons, ih, Text.compare_bytes, Sources.placeOrder, Sources.placeOrder,
        List.map_cons, List.map_cons, List.compare_cons_cons]

instance : Std.OrientedCmp byteOrder where
  eq_swap := Std.OrientedOrd.eq_swap

end Location

namespace FileTree

variable {tree : FileTree} {here place : Location} {name : String} {levels : Nat}

/-- The name of a place that is no deeper than its name. -/
def name? : Location → Option String
  | [name] => some name
  | _ => none

/-- The names that stand directly in a directory, in the order of their bytes. -/
def namesIn (tree : FileTree) (here : Location) : List String :=
  (((tree.below here).map Prod.fst).filterMap name?).mergeSort fun left right =>
    (compare (Text.bytes left.toList) (Text.bytes right.toList)).isLE

/-- A walk that goes down so many levels and no further. -/
def walkDown (tree : FileTree) : Nat → Location → List Location
  | 0, _ => [[]]
  | levels + 1, here =>
    [] :: if tree.isDirectoryAt here then
        (tree.namesIn here).flatMap fun name =>
          (walkDown tree levels (here ++ [name])).map (name :: ·)
      else []

/-- The length of the longest location in a tree. -/
def depth (tree : FileTree) : Nat := (tree.entries.keys.map List.length).foldr max 0

/-- The places from a location on, the location itself first, and what lies in it depth first. -/
def walk (tree : FileTree) (here : Location) : List Location := tree.walkDown tree.depth here

theorem name?_eq_some_iff : name? place = some name ↔ place = [name] := by
  unfold name?
  split <;> simp_all

theorem mem_namesIn_iff :
    name ∈ tree.namesIn here ↔ (tree.node? (here ++ [name])).isSome = true := by
  rw [namesIn, List.mem_mergeSort, List.mem_filterMap, Option.isSome_iff_exists]
  constructor
  · rintro ⟨place, member, single⟩
    obtain ⟨⟨_, node⟩, found, rfl⟩ := List.mem_map.mp member
    rw [name?_eq_some_iff] at single
    exact ⟨node, single ▸ (Sources.mem_below_iff.mp found).2⟩
  · rintro ⟨node, found⟩
    have below : ([name], node) ∈ tree.below here :=
      Sources.mem_below_iff.mpr ⟨List.cons_ne_nil _ _, found⟩
    exact ⟨[name], List.mem_map_of_mem below, rfl⟩

theorem pairwise_namesIn (tree : FileTree) (here : Location) :
    (tree.namesIn here).Pairwise fun earlier later =>
      compare (Text.bytes earlier.toList) (Text.bytes later.toList) = .lt := by
  have apart : (((tree.below here).map Prod.fst).filterMap name?).Nodup := by
    apply List.Nodup.filterMap _ (Sources.nodup_below tree here)
    intro place other name first second
    rw [name?_eq_some_iff.mp first, name?_eq_some_iff.mp second]
  have injective : Function.Injective fun name : String => Text.bytes name.toList :=
    fun _ _ same => String.toList_inj.mp (Text.bytes_injective same)
  exact pairwise_mergeSort_of_distinct (List.Nodup.map injective apart)

theorem pairwise_walkDown (tree : FileTree) (levels : Nat) (here : Location) :
    (tree.walkDown levels here).Pairwise fun earlier later =>
      Location.byteOrder earlier later = .lt := by
  induction levels generalizing here with
  | zero => exact List.pairwise_singleton _ _
  | succ levels ih =>
    rw [walkDown]
    split
    · refine List.pairwise_cons.mpr ⟨fun place member => ?_, List.pairwise_flatMap.mpr ⟨?_, ?_⟩⟩
      · obtain ⟨name, -, inside⟩ := List.mem_flatMap.mp member
        obtain ⟨rest, -, rfl⟩ := List.mem_map.mp inside
        exact Location.byteOrder_nil_cons
      · intro name _
        refine List.pairwise_map.mpr ((ih (here ++ [name])).imp fun less => ?_)
        rw [Location.byteOrder_cons_cons, Std.ReflOrd.compare_self, Ordering.eq_then, less]
      · refine (pairwise_namesIn tree here).imp fun less place first other second => ?_
        obtain ⟨rest, -, rfl⟩ := List.mem_map.mp first
        obtain ⟨others, -, rfl⟩ := List.mem_map.mp second
        rw [Location.byteOrder_cons_cons, less, Ordering.lt_then]
    · exact List.pairwise_singleton _ _

theorem WellFormed.isSome_above (wellFormed : tree.WellFormed)
    (found : (tree.node? (here ++ place)).isSome = true) : (tree.node? here).isSome = true := by
  by_cases same : here = here ++ place
  · rwa [← same] at found
  · rw [wellFormed.ancestor found (List.prefix_append _ _) same]
    rfl

theorem mem_walkDown_iff (wellFormed : tree.WellFormed)
    (existing : (tree.node? here).isSome = true) :
    place ∈ tree.walkDown levels here ↔
      place.length ≤ levels ∧ (tree.node? (here ++ place)).isSome = true := by
  induction levels generalizing here place with
  | zero =>
    rw [walkDown, List.mem_singleton, Nat.le_zero, List.length_eq_zero_iff]
    constructor
    · rintro rfl
      exact ⟨rfl, by rwa [List.append_nil]⟩
    · exact And.left
  | succ levels ih =>
    cases place with
    | nil => simp [walkDown, existing]
    | cons name rest =>
      rw [List.append_cons, List.length_cons, Nat.succ_le_succ_iff]
      constructor
      · intro member
        have inside := (List.mem_cons.mp member).resolve_left (List.cons_ne_nil _ _)
        split at inside
        · obtain ⟨found, known, within⟩ := List.mem_flatMap.mp inside
          obtain ⟨others, held, same⟩ := List.mem_map.mp within
          cases same
          exact (ih (mem_namesIn_iff.mp known)).mp held
        · cases inside
      · rintro ⟨short, found⟩
        have next : (tree.node? (here ++ [name])).isSome = true := wellFormed.isSome_above found
        have directory : tree.isDirectoryAt here = true :=
          isDirectoryAt_iff.mpr (wellFormed.ancestor next (List.prefix_append _ _) (by simp))
        rw [walkDown, if_pos directory]
        refine List.mem_cons_of_mem _ (List.mem_flatMap.mpr ⟨name, mem_namesIn_iff.mpr next, ?_⟩)
        exact List.mem_map_of_mem ((ih next).mpr ⟨short, found⟩)

theorem length_le_depth (found : (tree.node? (here ++ place)).isSome = true) :
    place.length ≤ tree.depth := by
  by_cases root : here ++ place = []
  · rw [(List.append_eq_nil_iff.mp root).2]
    exact Nat.zero_le _
  · have whole : (here ++ place).length ≤ tree.depth :=
      List.le_max_of_le (List.mem_map_of_mem (mem_keys_of_isSome_node? root found)) le_rfl
    rw [List.length_append] at whole
    omega

/-- A walk meets everything below a location. -/
theorem mem_walk_iff (wellFormed : tree.WellFormed) (existing : (tree.node? here).isSome = true) :
    place ∈ tree.walk here ↔ (tree.node? (here ++ place)).isSome = true := by
  rw [walk, mem_walkDown_iff wellFormed existing, and_iff_right_of_imp length_le_depth]

theorem pairwise_walk (tree : FileTree) (here : Location) :
    (tree.walk here).Pairwise fun earlier later => Location.byteOrder earlier later = .lt :=
  pairwise_walkDown tree tree.depth here

/-- The depth of the tree is as good as no limit. -/
theorem walk_eq (wellFormed : tree.WellFormed) (existing : (tree.node? here).isSome = true) :
    tree.walk here = [] :: if tree.isDirectoryAt here then
        (tree.namesIn here).flatMap fun name => (tree.walk (here ++ [name])).map (name :: ·)
      else [] := by
  change _ = tree.walkDown (tree.depth + 1) here
  refine eq_of_strictlyOrdered (pairwise_walk tree here)
    (pairwise_walkDown tree (tree.depth + 1) here) fun place => ?_
  rw [mem_walk_iff wellFormed existing, mem_walkDown_iff wellFormed existing,
    and_iff_right_of_imp fun found => Nat.le_succ_of_le (length_le_depth found)]

end FileTree

end QueryContract
