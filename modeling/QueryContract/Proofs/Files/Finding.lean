import Mathlib.Data.List.TakeWhile
import QueryContract.Proofs.Files.Walking

/-!
What the scan of a directory returns. The paths of the files it finds lead to them and have the
components of the directory and of their places; the files are those whose names end as they should.
-/

namespace QueryContract

open FileTree (isFileName)

namespace Path

variable {directory : Path} {place : Location}

/-- A slash at the end of the path of a directory stands before an empty segment. -/
theorem exists_segments_join (directory : Path) : ∃ above, above ≠ [] ∧
    (directory.segments = above ∨ directory.segments = above ++ [""]) ∧
    ∀ place : Location, place.all isFileName = true → place ≠ [] →
      (Sources.join directory place).segments = above ++ place := by
  have joined {start : String} {before : List Char} (slash : start.toList = before ++ ['/'])
      (place : Location) (named : place.all isFileName = true) (below : place ≠ []) :
      (Path.mk (start ++ "/".intercalate place)).segments =
        (before.splitOn '/').map String.ofList ++ place := by
    have own := (segments_intercalate named).resolve_right fun root => below root.1
    rw [segments_append slash, own]
  by_cases ended : directory.text.toList.getLast? = some '/'
  · obtain ⟨before, slash⟩ := List.getLast?_eq_some_iff.mp ended
    refine ⟨(before.splitOn '/').map String.ofList, by simp, .inr ?_, ?_⟩
    · have whole := segments_append slash ""
      rw [String.append_empty] at whole
      exact whole
    · simp only [Sources.join, if_pos ended]
      exact joined slash
  · have slash : (directory.text ++ "/").toList = directory.text.toList ++ ['/'] :=
      String.toList_append
    refine ⟨directory.segments, by simp [segments], .inl rfl, ?_⟩
    simp only [Sources.join, if_neg ended]
    exact joined slash

theorem isAbsolute_join (written : directory.text ≠ "") (place : Location) :
    (Sources.join directory place).isAbsolute = directory.isAbsolute := by
  obtain ⟨c, rest, start⟩ := List.exists_cons_of_ne_nil (String.toList_eq_nil_iff.not.mpr written)
  unfold isAbsolute Sources.join
  split <;> simp [String.toList_append, start]

/-- A path that a scan returns has the components of the directory and the names of the place. -/
theorem components_join_of_written (written : directory.text ≠ "")
    (named : place.all isFileName = true) (below : place ≠ []) :
    (Sources.join directory place).components = directory.components ++ place.map .name := by
  obtain ⟨above, some, own, joined⟩ := exists_segments_join directory
  have head : directory.segments.head? = (above ++ place).head? := by
    rw [List.head?_append_of_ne_nil _ some]
    rcases own with own | own
    · rw [own]
    · rw [own, List.head?_append_of_ne_nil _ some]
  have kept : directory.segments.filterMap Component.ofSegment? =
      above.filterMap Component.ofSegment? := by
    rcases own with own | own
    · rw [own]
    · rw [own, List.filterMap_append]
      exact List.append_nil _
  unfold components
  rw [isAbsolute_join written, joined place named below, List.filterMap_append,
    filterMap_ofSegment?_of_named named, head, kept, List.append_assoc]

end Path

namespace FileTree

variable {tree : FileTree} {directory : Path} {here place : Location}

theorem written_of_locate (located : tree.locate directory = .ok here) : directory.text ≠ "" := by
  intro empty
  rw [locate, empty] at located
  cases located

theorem eq_of_enter_empty (entered : tree.enter here "" = .ok place) : place = here := by
  unfold enter at entered
  split at entered
  · cases entered
  · cases entered
  · rw [if_pos (Or.inl rfl)] at entered
    exact (Except.ok.inj entered).symm

theorem locate_join (wellFormed : tree.WellFormed) (located : tree.locate directory = .ok here)
    (below : place ≠ []) (found : (tree.node? (here ++ place)).isSome = true) :
    tree.locate (Sources.join directory place) = .ok (here ++ place) := by
  have written := written_of_locate located
  have named : place.all isFileName = true := by
    have whole := wellFormed.names found
    rw [List.all_append, Bool.and_eq_true] at whole
    exact whole.2
  have whole : (Sources.join directory place).text ≠ "" := by
    unfold Sources.join
    split <;> simp [written]
  obtain ⟨above, -, own, joined⟩ := Path.exists_segments_join directory
  rw [locate, String.isEmpty_eq_false_iff.mpr written] at located
  have reached : above.foldlM tree.enter (tree.origin directory) = .ok here := by
    rcases own with own | own
    · rwa [own] at located
    · rw [own, List.foldlM_append] at located
      obtain ⟨there, reached, entered⟩ := exists_of_bind_eq_ok located
      rw [List.foldlM_cons] at entered
      obtain ⟨place, entered, same⟩ := exists_of_bind_eq_ok entered
      rw [reached, ← eq_of_enter_empty entered]
      exact same
  have start : tree.origin (Sources.join directory place) = tree.origin directory := by
    rw [origin, origin, Path.isAbsolute_join written]
  rw [locate, String.isEmpty_eq_false_iff.mpr whole, start, joined place named below,
    List.foldlM_append, reached]
  exact foldlM_enter wellFormed here found

end FileTree

namespace Sources

variable {tree : FileTree} {directory : Path} {location place : Location} {name : String}

theorem extension?_eq_some_iff {name ending : List Char} : extension? name = some ending ↔
    ∃ stem, stem ≠ [] ∧ '.' ∉ ending ∧ name = stem ++ '.' :: ending := by
  constructor
  · intro found
    obtain ⟨long, same⟩ := Option.ite_none_right_eq_some.mp found
    cases same
    have split := List.takeWhile_append_dropWhile (p := (· != '.')) (l := name.reverse)
    have stop := List.head?_dropWhile_not (· != '.') name.reverse
    have plain : '.' ∉ name.reverse.takeWhile (· != '.') := fun member => by
      simpa using List.mem_takeWhile_imp member
    generalize name.reverse.takeWhile (· != '.') = ending at *
    cases rest : name.reverse.dropWhile (· != '.') with
    | nil =>
      rw [rest, List.append_nil] at split
      rw [split, List.length_reverse, List.length_reverse] at long
      omega
    | cons c stem =>
      rw [rest] at split stop
      have dot : c = '.' := by simpa using stop
      have whole : name = stem.reverse ++ '.' :: ending.reverse := by
        rw [← List.reverse_inj, ← split, dot]
        simp
      refine ⟨stem.reverse, ?_, by simpa using plain, whole⟩
      rintro none
      simp [whole, none] at long
  · rintro ⟨stem, some, plain, rfl⟩
    have passes : ∀ c ∈ ending.reverse, (c != '.') = true := by
      intro c member
      rw [bne_iff_ne]
      rintro rfl
      exact plain (List.mem_reverse.mp member)
    have kept : (stem ++ '.' :: ending).reverse.takeWhile (· != '.') = ending.reverse := by
      rw [List.reverse_append, List.reverse_cons, List.append_assoc,
        List.takeWhile_append_of_pos passes]
      exact List.append_nil _
    have long : ending.length + 1 < (stem ++ '.' :: ending).length := by
      have nonempty : 0 < stem.length := List.length_pos_iff.mpr some
      rw [List.length_append, List.length_cons]
      omega
    rw [extension?, kept, List.reverse_reverse, if_pos long]

/-- The dot that ends the stem is no first character, and case does not matter in what follows. -/
theorem isDeclarationName_iff : isDeclarationName name = true ↔
    ∃ stem ending, stem ≠ [] ∧ name.toList = stem ++ '.' :: ending ∧
      Text.sameIgnoringCase ending "sql".toList = true := by
  have undotted {ending : List Char} (same : Text.sameIgnoringCase ending "sql".toList = true) :
      '.' ∉ ending := by
    intro member
    have lowered : '.' ∈ Text.lowercase ending := List.mem_map_of_mem (f := Char.toLower) member
    rw [eq_of_beq same] at lowered
    revert lowered
    decide
  rw [isDeclarationName, Option.any_eq_true]
  constructor
  · rintro ⟨ending, found, same⟩
    obtain ⟨stem, some, -, whole⟩ := extension?_eq_some_iff.mp found
    exact ⟨stem, ending, some, whole, same⟩
  · rintro ⟨stem, ending, some, whole, same⟩
    exact ⟨ending, extension?_eq_some_iff.mpr ⟨stem, some, undotted same, whole⟩, same⟩

theorem declarationPlaces_eq_filter_walk (wellFormed : tree.WellFormed)
    (existing : tree.isDirectoryAt location = true) :
    declarationPlaces tree location = (tree.walk location).filter fun place =>
      (tree.node? (location ++ place)).any (isDeclarationFile place) := by
  have present : (tree.node? location).isSome = true := by
    rw [FileTree.isDirectoryAt_iff.mp existing]
    rfl
  have ordered : (declarationPlaces tree location).Pairwise fun earlier later =>
      Location.byteOrder earlier later = .lt := by
    simpa only [Location.byteOrder_eq_placeOrder] using pairwise_declarationPlaces tree location
  apply eq_of_strictlyOrdered ordered ((tree.pairwise_walk location).filter _)
  intro place
  rw [mem_declarationPlaces_iff, List.mem_filter, FileTree.mem_walk_iff wellFormed present,
    Option.any_eq_true]
  constructor
  · rintro ⟨node, found, declares⟩
    exact ⟨by rw [found]; rfl, node, found, declares⟩
  · rintro ⟨-, node, found, declares⟩
    exact ⟨node, found, declares⟩

/-- The files of an existing directory are the declaration files that a walk meets, in its order.
    They are all regular files below the directory whose names end in a dot and the letters of
    `sql`, in strict order of their places; without any there is nothing to read. -/
theorem resolve_directory (wellFormed : tree.WellFormed)
    (existing : tree.isDirectory directory = true) :
    ∃ location places, tree.locate directory = .ok location ∧
      (Sources.directory directory).resolve tree =
        (if places = [] then .error .nothingToRead else .ok (places.map (join directory))) ∧
      (places = (tree.walk location).filter fun place =>
        (tree.node? (location ++ place)).any (isDeclarationFile place)) ∧
      (∀ place, place ∈ places ↔
        ∃ content name, tree.node? (location ++ place) = some (.file content) ∧
          place.getLast? = some name ∧ ∃ stem ending, stem ≠ [] ∧
            name.toList = stem ++ '.' :: ending ∧
            Text.sameIgnoringCase ending "sql".toList = true) ∧
      (places.Pairwise fun earlier later => Location.byteOrder earlier later = .lt) ∧
      ∀ place ∈ places,
        (join directory place).components = directory.components ++ place.map .name ∧
        tree.locate (join directory place) = .ok (location ++ place) := by
  obtain ⟨location, located, here⟩ := FileTree.exists_of_isDirectory existing
  have walked := declarationPlaces_eq_filter_walk wellFormed here
  have scanned : scan tree directory =
      .ok ((declarationPlaces tree location).map (join directory)) := by
    rw [scan, located]
    exact if_pos here
  refine ⟨location, declarationPlaces tree location, located, ?_, walked, ?_, ?_, ?_⟩
  · rw [resolve, scanned]
    simp only [List.isEmpty_map, List.isEmpty_iff, bind, Except.bind]
  · intro place
    rw [mem_declarationPlaces_iff]
    constructor
    · rintro ⟨node, found, declares⟩
      obtain ⟨content, name, rfl, last, named⟩ := isDeclarationFile_iff.mp declares
      exact ⟨content, name, found, last, isDeclarationName_iff.mp named⟩
    · rintro ⟨content, name, found, last, named⟩
      exact ⟨.file content, found,
        isDeclarationFile_iff.mpr ⟨content, name, rfl, last, isDeclarationName_iff.mpr named⟩⟩
  · rw [walked]
    exact (tree.pairwise_walk location).filter _
  · intro place member
    have named := named_of_mem_declarationPlaces wellFormed member
    obtain ⟨node, found, declares⟩ := mem_declarationPlaces_iff.mp member
    obtain ⟨_, name, -, last, -⟩ := isDeclarationFile_iff.mp declares
    have below : place ≠ [] := by
      rintro rfl
      cases last
    have written := FileTree.written_of_locate located
    exact ⟨Path.components_join_of_written written named below,
      FileTree.locate_join wellFormed located below (by rw [found]; rfl)⟩

/-- A directory stands before a file whose name continues its own, other than in the order of path
    texts. Names that start with their only dot and directories named like files are left out. -/
def mixedTree : FileTree where
  workingDirectory := ["w"]
  entries := .ofList [(["w"], .directory), (["w", "a-b.c.sql"], .file .empty),
    (["w", "a"], .directory), (["w", "a", "z.SQL"], .file .empty), (["w", ".sql"], .file .empty),
    (["w", "a", "x.sql"], .directory), (["w", "a", "x.sql", ".q.Sql"], .file .empty),
    (["w", "a.sql.txt"], .file .empty)]

theorem resolve_directory_of_mixedTree :
    mixedTree.WellFormed ∧ mixedTree.isDirectory ⟨"./"⟩ = true ∧
      (Sources.directory ⟨"./"⟩).resolve mixedTree =
        .ok [⟨"./a/x.sql/.q.Sql"⟩, ⟨"./a/z.SQL"⟩, ⟨"./a-b.c.sql"⟩] ∧
      ∃ places : List Location, places.map (join ⟨"./"⟩) =
          [⟨"./a/x.sql/.q.Sql"⟩, ⟨"./a/z.SQL"⟩, ⟨"./a-b.c.sql"⟩] ∧
        places.Pairwise fun earlier later => Location.byteOrder earlier later = .lt := by
  have wellFormed : mixedTree.WellFormed := ⟨by decide +kernel, by decide +kernel⟩
  have existing : mixedTree.isDirectory ⟨"./"⟩ = true := by decide +kernel
  have places : declarationPlaces mixedTree ["w"] =
      [["a", "x.sql", ".q.Sql"], ["a", "z.SQL"], ["a-b.c.sql"]] := by
    apply eq_of_strictlyOrdered (pairwise_declarationPlaces mixedTree ["w"])
      (by decide +kernel)
    intro place
    rw [declarationPlaces, List.mem_mergeSort]
    exact List.Perm.mem_iff (by decide +kernel)
  have found : (Sources.directory ⟨"./"⟩).resolve mixedTree =
      .ok [⟨"./a/x.sql/.q.Sql"⟩, ⟨"./a/z.SQL"⟩, ⟨"./a-b.c.sql"⟩] := by
    have located : mixedTree.locate ⟨"./"⟩ = .ok ["w"] := by decide +kernel
    rw [resolve, scan, located]
    dsimp only
    rw [if_pos (by decide +kernel), places]
    decide +kernel
  obtain ⟨_, places, -, resolved, -, -, ordered, -⟩ := resolve_directory wellFormed existing
  refine ⟨wellFormed, existing, found, places, ?_, ordered⟩
  rw [found] at resolved
  split at resolved
  · cases resolved
  · exact (Except.ok.inj resolved).symm

end Sources

end QueryContract
