import QueryContract.Proofs.Files.Resolving
import QueryContract.Proofs.Sorting

/-!
What a scan of a directory finds: the declaration files below it, in strict order of their places.
What it finds is thus fixed by which nodes there are, and not by the order of the tree's entries.
-/

namespace QueryContract.Sources

variable {tree other : FileTree} {location place : Location} {node : Node}

theorem mem_below_iff :
    (place, node) ∈ tree.below location ↔
      place ≠ [] ∧ tree.node? (location ++ place) = some node := by
  have held : place ≠ [] → (tree.node? (location ++ place) = some node ↔
      (location ++ place, node) ∈ tree.entries.pairs) := by
    intro below
    rw [FileTree.node?_of_ne_nil (List.append_ne_nil_of_right_ne_nil location below),
      Association.get?_eq_some_iff]
  constructor
  · intro h
    obtain ⟨⟨whole, found⟩, member, given⟩ := List.mem_filterMap.mp h
    obtain ⟨rest, start, kept⟩ := Option.bind_eq_some_iff.mp given
    rw [List.isPrefixOf?_eq_some_iff_append_eq] at start
    split at kept
    · cases kept
    · rename_i nonempty
      cases kept
      have below : place ≠ [] := by simpa using nonempty
      exact ⟨below, (held below).mpr (start ▸ member)⟩
  · rintro ⟨below, found⟩
    refine List.mem_filterMap.mpr ⟨_, (held below).mp found, ?_⟩
    rw [Option.bind_eq_some_iff]
    refine ⟨place, List.isPrefixOf?_eq_some_iff_append_eq.mpr rfl, ?_⟩
    rw [if_neg (by simpa using below)]

theorem mem_declarationPlaces_iff :
    place ∈ declarationPlaces tree location ↔
      ∃ node, tree.node? (location ++ place) = some node ∧
        isDeclarationFile place node = true := by
  rw [declarationPlaces, List.mem_mergeSort, List.mem_map]
  constructor
  · rintro ⟨⟨place, node⟩, member, rfl⟩
    obtain ⟨found, declares⟩ := List.mem_filter.mp member
    exact ⟨node, (mem_below_iff.mp found).2, declares⟩
  · rintro ⟨node, found, declares⟩
    obtain ⟨_, name, -, last, -⟩ := isDeclarationFile_iff.mp declares
    have below : place ≠ [] := by
      rintro rfl
      cases last
    exact ⟨(place, node), List.mem_filter.mpr ⟨mem_below_iff.mpr ⟨below, found⟩, declares⟩, rfl⟩

instance : Std.TransCmp placeOrder where
  eq_swap := Std.OrientedOrd.eq_swap
  isLE_trans := Std.TransOrd.isLE_trans

instance : Std.LawfulEqCmp placeOrder where
  compare_self := Std.ReflOrd.compare_self
  eq_of_compare same :=
    List.map_injective_iff.mpr (fun _ _ => String.toList_inj.mp)
      (Std.LawfulEqOrd.eq_of_compare same)

theorem pairwise_declarationPlaces (tree : FileTree) (location : Location) :
    (declarationPlaces tree location).Pairwise fun earlier later =>
      placeOrder earlier later = .lt := by
  have apart : (((tree.below location).filter fun found =>
      isDeclarationFile found.1 found.2).map (·.1)).Nodup :=
    (nodup_below tree location).sublist (List.filter_sublist.map Prod.fst)
  exact pairwise_mergeSort_of_distinct ((List.map_id' _).symm ▸ apart)

/-- Trees with the same declaration files below a directory are scanned alike. -/
theorem declarationPlaces_congr
    (same : ∀ place node, isDeclarationFile place node = true →
      (tree.node? (location ++ place) = some node ↔ other.node? (location ++ place) = some node)) :
    declarationPlaces tree location = declarationPlaces other location := by
  refine eq_of_strictlyOrdered (pairwise_declarationPlaces tree location)
    (pairwise_declarationPlaces other location) fun place => ?_
  rw [mem_declarationPlaces_iff, mem_declarationPlaces_iff]
  refine exists_congr fun node => ?_
  constructor
  · rintro ⟨found, declares⟩
    exact ⟨(same place node declares).mp found, declares⟩
  · rintro ⟨found, declares⟩
    exact ⟨(same place node declares).mpr found, declares⟩

end QueryContract.Sources
