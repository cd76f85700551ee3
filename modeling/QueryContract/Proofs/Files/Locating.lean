import QueryContract.Proofs.Contract.FirstFault
import QueryContract.Proofs.Files.Tree

/-!
The path text of a location leads back to it.
-/

namespace QueryContract

open FileTree (isFileName)

theorem Location.toList_path (location : Location) :
    (Location.path location).text.toList =
      '/' :: ['/'].intercalate (location.map String.toList) := by
  rw [path, String.toList_append, String.toList_intercalate]
  rfl

/-- The slash at the start of a path text stands after an empty segment. -/
theorem Location.segments_path {location : Location} (named : location.all isFileName = true) :
    (Location.path location).segments = "" :: location ∨
      location = [] ∧ (Location.path location).segments = ["", ""] := by
  rw [Path.segments, toList_path]
  by_cases root : location = []
  · subst root
    exact .inr ⟨rfl, by decide⟩
  · refine .inl ?_
    have whole : '/' :: ['/'].intercalate (location.map String.toList) =
        ['/'].intercalate ([] :: location.map String.toList) := by
      obtain ⟨first, rest, rfl⟩ := List.exists_cons_of_ne_nil root
      rw [List.map_cons, List.intercalate_cons_cons]
      rfl
    have slashless : ∀ segment ∈ [] :: location.map String.toList, '/' ∉ segment := by
      rw [List.forall_mem_cons, List.forall_mem_map]
      refine ⟨List.not_mem_nil, fun name member => ?_⟩
      have valid := List.all_eq_true.mp named name member
      simp only [isFileName, Bool.and_eq_true, Bool.not_eq_true', List.contains_eq_mem,
        decide_eq_false_iff_not] at valid
      exact valid.2
    rw [whole, List.splitOn_intercalate _ slashless (List.cons_ne_nil _ _)]
    simp

namespace FileTree

variable {tree : FileTree} {location : Location}

theorem enter_name {here : Location} {name : String} (directory : tree.node? here = some .directory)
    (valid : isFileName name = true) (found : (tree.node? (here ++ [name])).isSome = true) :
    tree.enter here name = .ok (here ++ [name]) := by
  simp only [isFileName, Bool.and_eq_true, Bool.not_eq_true', List.contains_eq_mem,
    decide_eq_false_iff_not, List.mem_cons, List.not_mem_nil, or_false, not_or] at valid
  obtain ⟨⟨empty, dot, dots⟩, -⟩ := valid
  simp [enter, directory, empty, dot, dots, found]

/-- A name leads nowhere but one level down. -/
theorem eq_of_enter_name {here next : Location} {name : String} (valid : isFileName name = true)
    (h : tree.enter here name = .ok next) : next = here ++ [name] := by
  simp only [isFileName, Bool.and_eq_true, Bool.not_eq_true', List.contains_eq_mem,
    decide_eq_false_iff_not, List.mem_cons, List.not_mem_nil, or_false, not_or] at valid
  obtain ⟨⟨empty, dot, dots⟩, -⟩ := valid
  unfold enter at h
  split at h
  · cases h
  · cases h
  · rw [if_neg (by simp [empty, dot]), if_neg dots] at h
    split at h
    · cases h
      rfl
    · cases h

theorem eq_of_foldlM_enter {here rest : Location} (named : rest.all isFileName = true)
    (h : rest.foldlM tree.enter here = .ok location) : location = here ++ rest := by
  induction rest generalizing here with
  | nil =>
    cases h
    rw [List.append_nil]
  | cons name rest ih =>
    rw [List.all_cons, Bool.and_eq_true] at named
    rw [List.foldlM_cons] at h
    obtain ⟨next, entered, followed⟩ := exists_of_bind_eq_ok h
    rw [ih named.2 followed, eq_of_enter_name named.1 entered, List.append_assoc,
      List.singleton_append]

theorem foldlM_enter (wellFormed : tree.WellFormed) (here : Location) {rest : Location}
    (found : (tree.node? (here ++ rest)).isSome = true) :
    rest.foldlM tree.enter here = .ok (here ++ rest) := by
  induction rest generalizing here with
  | nil => rw [List.append_nil]; rfl
  | cons name rest ih =>
    have directory : tree.node? here = some .directory :=
      wellFormed.ancestor found (List.prefix_append _ _) (by simp)
    have valid : isFileName name = true :=
      List.all_eq_true.mp (wellFormed.names found) name (by simp)
    rw [List.append_cons] at found
    have next : (tree.node? (here ++ [name])).isSome = true := by
      by_cases last : rest = []
      · rw [last, List.append_nil] at found
        exact found
      · rw [wellFormed.ancestor found (List.prefix_append _ _) (by simpa using last)]
        rfl
    rw [List.foldlM_cons, enter_name directory valid next]
    exact (ih (here ++ [name]) found).trans (by rw [← List.append_cons])

theorem locate_path (wellFormed : tree.WellFormed) (found : (tree.node? location).isSome = true) :
    tree.locate (Location.path location) = .ok location := by
  have written : (Location.path location).text.isEmpty = false := by
    rw [Bool.eq_false_iff, ne_eq, String.isEmpty_iff, ← String.toList_eq_nil_iff,
      Location.toList_path]
    exact List.cons_ne_nil _ _
  have absolute : (Location.path location).isAbsolute = true := by
    rw [Path.isAbsolute, Location.toList_path]
    rfl
  rw [locate, written, origin, absolute]
  rcases Location.segments_path (wellFormed.names found) with segments | ⟨root, segments⟩
  · rw [segments]
    exact foldlM_enter wellFormed [] found
  · rw [segments, root]
    rfl

theorem content_path (wellFormed : tree.WellFormed) {content : ByteArray}
    (found : tree.node? location = some (.file content)) :
    tree.content (Location.path location) = .ok content := by
  rw [FileTree.content, locate_path wellFormed (by rw [found]; rfl)]
  simp only [found]

end FileTree

end QueryContract
