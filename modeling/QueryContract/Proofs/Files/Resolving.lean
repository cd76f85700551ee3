import QueryContract.Files.Sources
import QueryContract.Proofs.Contract.FirstFault
import QueryContract.Proofs.Files.Locating
import QueryContract.Proofs.Text.Pieces

/-!
The files of a run are different paths. Named files are kept only if they are not the same as an
earlier one; those of a directory continue its path by different places, which are made of names.
-/

namespace QueryContract

open FileTree (isFileName)

namespace Path

theorem segments_append {start : String} {before : List Char}
    (slash : start.toList = before ++ ['/']) (rest : String) :
    (Path.mk (start ++ rest)).segments =
      (before.splitOn '/').map String.ofList ++ (Path.mk rest).segments := by
  unfold segments
  rw [String.toList_append, slash, List.append_assoc, List.singleton_append,
    Text.splitOn_append_separator, List.map_append]

/-- What is added after a slash adds components, whatever stands before it. -/
theorem components_append {start : String} {before : List Char}
    (slash : start.toList = before ++ ['/']) : ∃ above, ∀ rest : String,
      (Path.mk (start ++ rest)).components =
        above ++ (Path.mk rest).segments.filterMap Component.ofSegment? := by
  let pieces := (before.splitOn '/').map String.ofList
  have first : ∃ head others, pieces = head :: others :=
    List.exists_cons_of_ne_nil (by simp [pieces])
  obtain ⟨head, others, split⟩ := first
  refine ⟨(if (before ++ ['/']).head? = some '/' then [.root]
    else if pieces.head? = some "." then [.here] else []) ++
      pieces.filterMap Component.ofSegment?, fun rest => ?_⟩
  have absolute : (Path.mk (start ++ rest)).isAbsolute =
      decide ((before ++ ['/']).head? = some '/') := by
    unfold isAbsolute
    rw [String.toList_append, slash]
    cases before <;> rfl
  have segments := segments_append slash rest
  change _ = pieces ++ _ at segments
  unfold components
  rw [absolute, segments, split, List.filterMap_append, List.append_assoc]
  simp only [decide_eq_true_eq, List.cons_append, List.head?_cons]
  congr

theorem Component.ofSegment?_of_isFileName {name : String} (valid : isFileName name = true) :
    Component.ofSegment? name = some (.name name) := by
  simp only [isFileName, Bool.and_eq_true, Bool.not_eq_true', List.contains_eq_mem,
    decide_eq_false_iff_not, List.mem_cons, List.not_mem_nil, or_false, not_or] at valid
  obtain ⟨⟨empty, dot, dots⟩, -⟩ := valid
  rw [ofSegment?, if_neg (not_or.mpr ⟨empty, dot⟩), if_neg dots]

theorem filterMap_ofSegment?_of_named {place : Location} (named : place.all isFileName = true) :
    place.filterMap Component.ofSegment? = place.map .name := by
  rw [← List.filterMap_eq_map]
  apply List.filterMap_congr
  intro name member
  exact Component.ofSegment?_of_isFileName (List.all_eq_true.mp named name member)

theorem head?_segments_of_isAbsolute {path : Path} (h : path.isAbsolute = true) :
    path.segments.head? = some "" := by
  obtain ⟨rest, split⟩ := List.head?_eq_some_iff.mp (of_decide_eq_true h)
  have pieces := Text.splitOn_append_separator '/' [] rest
  rw [segments, split, ← List.nil_append ('/' :: rest), pieces]
  rfl

theorem segments_intercalate {place : Location} (named : place.all isFileName = true) :
    (Path.mk ("/".intercalate place)).segments = place ∨
      place = [] ∧ (Path.mk ("/".intercalate place)).segments = [""] := by
  have slash : "/".toList = [] ++ ['/'] := rfl
  have rooted : (Location.path place).segments =
      "" :: (Path.mk ("/".intercalate place)).segments :=
    segments_append slash ("/".intercalate place)
  rcases Location.segments_path named with segments | ⟨root, segments⟩
  · exact .inl (List.cons.inj (rooted.symm.trans segments)).2
  · exact .inr ⟨root, (List.cons.inj (rooted.symm.trans segments)).2⟩

end Path

namespace Sources

variable {tree : FileTree} {files : List Path} {location place other : Location}

theorem filterMap_segments_intercalate (named : place.all isFileName = true) :
    (Path.mk ("/".intercalate place)).segments.filterMap Path.Component.ofSegment? =
      place.map .name := by
  rcases Path.segments_intercalate named with segments | ⟨root, segments⟩
  · rw [segments, Path.filterMap_ofSegment?_of_named named]
  · rw [segments, root]
    rfl

/-- The components of the files in a directory are those of the directory and then their places. -/
theorem components_join (directory : Path) : ∃ above, ∀ place : Location,
    place.all isFileName = true → (join directory place).components = above ++ place.map .name := by
  let start :=
    if directory.text.toList.getLast? = some '/' then directory.text else directory.text ++ "/"
  have slash : ∃ before, start.toList = before ++ ['/'] := by
    by_cases ended : directory.text.toList.getLast? = some '/'
    · obtain ⟨before, split⟩ := List.getLast?_eq_some_iff.mp ended
      exact ⟨before, by simp only [start, if_pos ended, split]⟩
    · exact ⟨directory.text.toList, by simp only [start, if_neg ended, String.toList_append]; rfl⟩
  obtain ⟨before, slash⟩ := slash
  obtain ⟨above, components⟩ := Path.components_append slash
  refine ⟨above, fun place named => ?_⟩
  rw [← filterMap_segments_intercalate named]
  exact components ("/".intercalate place)

theorem same_join_eq_false {directory : Path} (named : place.all isFileName = true)
    (namedOther : other.all isFileName = true) (apart : place ≠ other) :
    (join directory place).same (join directory other) = false := by
  obtain ⟨above, components⟩ := components_join directory
  rw [Path.same, components place named, components other namedOther]
  refine decide_eq_false fun same => apart ?_
  exact List.map_injective_iff.mpr (fun _ _ => Path.Component.name.inj)
    (List.append_cancel_left same)

theorem mem_keys_of_mem_below {node : Node} (h : (place, node) ∈ tree.below location) :
    location ++ place ∈ tree.entries.keys := by
  obtain ⟨⟨whole, held⟩, member, found⟩ := List.mem_filterMap.mp h
  obtain ⟨rest, prefixed, kept⟩ := Option.bind_eq_some_iff.mp found
  split at kept
  · cases kept
  · cases kept
    rw [List.isPrefixOf?_eq_some_iff_append_eq] at prefixed
    rw [prefixed]
    exact List.mem_map_of_mem (f := Prod.fst) member

theorem nodup_below (tree : FileTree) (location : Location) :
    ((tree.below location).map Prod.fst).Nodup := by
  have distinct := List.pairwise_map.mp tree.entries.distinct
  refine List.pairwise_map.mpr (List.Pairwise.filterMap _ ?_ distinct)
  intro first second apart below found belowOther foundOther same
  obtain ⟨rest, prefixed, kept⟩ := Option.bind_eq_some_iff.mp found
  obtain ⟨restOther, prefixedOther, keptOther⟩ := Option.bind_eq_some_iff.mp foundOther
  rw [List.isPrefixOf?_eq_some_iff_append_eq] at prefixed prefixedOther
  split at kept
  · cases kept
  split at keptOther
  · cases keptOther
  cases kept
  cases keptOther
  cases same
  exact apart (prefixed.symm.trans prefixedOther)

theorem named_of_mem_declarationPlaces (wellFormed : tree.WellFormed)
    (h : place ∈ declarationPlaces tree location) : place.all isFileName = true := by
  rw [declarationPlaces, List.mem_mergeSort] at h
  obtain ⟨⟨_, node⟩, member, rfl⟩ := List.mem_map.mp h
  have key := mem_keys_of_mem_below (List.mem_filter.mp member).1
  have named := wellFormed.named _ key
  rw [List.all_append, Bool.and_eq_true] at named
  exact named.2

theorem nodup_declarationPlaces (tree : FileTree) (location : Location) :
    (declarationPlaces tree location).Nodup := by
  rw [declarationPlaces, (List.mergeSort_perm _ _).nodup_iff]
  exact (nodup_below tree location).sublist (List.filter_sublist.map Prod.fst)

theorem distinct_cons_eq_ok {seen rest : List Path} {path : Path}
    (h : distinct tree seen (path :: rest) = .ok files) : tree.isFile path = true ∧
      (distinct tree seen rest = .ok files ∨ (∀ known ∈ seen, known.same path = false) ∧
        ∃ others, distinct tree (seen ++ [path]) rest = .ok others ∧ files = path :: others) := by
  rw [distinct] at h
  split at h
  · cases h
  rename_i found
  refine ⟨by simpa using found, ?_⟩
  split at h
  · exact .inl h
  rename_i fresh
  refine .inr ⟨by simpa using fresh, ?_⟩
  cases later : distinct tree (seen ++ [path]) rest with
  | error fault => rw [later] at h; cases h
  | ok others =>
    rw [later] at h
    exact ⟨others, rfl, (Except.ok.inj h).symm⟩

theorem pairwise_distinct {seen paths : List Path} (h : distinct tree seen paths = .ok files) :
    (files.Pairwise fun earlier later => earlier.same later = false) ∧
      ∀ file ∈ files, ∀ known ∈ seen, known.same file = false := by
  induction paths generalizing seen files with
  | nil => cases h; exact ⟨.nil, List.forall_mem_nil _⟩
  | cons path rest ih =>
    rcases (distinct_cons_eq_ok h).2 with known | ⟨fresh, others, later, rfl⟩
    · exact ih known
    · obtain ⟨apart, unseen⟩ := ih later
      refine ⟨List.pairwise_cons.mpr ⟨fun file member => ?_, apart⟩,
        List.forall_mem_cons.mpr ⟨fresh, fun file member known held => ?_⟩⟩
      · exact unseen file member path (by simp)
      · exact unseen file member known (List.mem_append_left _ held)

theorem isFile_of_mem_distinct {seen paths : List Path} (h : distinct tree seen paths = .ok files) :
    ∀ file ∈ files, tree.isFile file = true := by
  induction paths generalizing seen files with
  | nil => cases h; exact List.forall_mem_nil _
  | cons path rest ih =>
    obtain ⟨found, known | ⟨-, others, later, rfl⟩⟩ := distinct_cons_eq_ok h
    · exact ih known
    · exact List.forall_mem_cons.mpr ⟨found, ih later⟩

theorem eq_join_of_scan {path : Path} (h : scan tree path = .ok files) :
    ∃ location, tree.locate path = .ok location ∧ tree.isDirectoryAt location = true ∧
      files = (declarationPlaces tree location).map (join path) := by
  unfold scan at h
  split at h
  · cases h
  rename_i location located
  split at h
  · rename_i existing
    exact ⟨location, located, existing, (Except.ok.inj h).symm⟩
  · cases h

theorem pairwise_scan (wellFormed : tree.WellFormed) {directory : Path}
    (h : scan tree directory = .ok files) :
    files.Pairwise fun earlier later => earlier.same later = false := by
  obtain ⟨location, -, -, rfl⟩ := eq_join_of_scan h
  refine List.pairwise_map.mpr ?_
  refine (nodup_declarationPlaces tree location).imp_of_mem fun {place other} first second apart => ?_
  exact same_join_eq_false (named_of_mem_declarationPlaces wellFormed first)
    (named_of_mem_declarationPlaces wellFormed second) apart

theorem found_of_nonempty {outcome : Except SourceFault (List Path)}
    (h : (outcome >>= fun found =>
      if found.isEmpty then .error .nothingToRead else .ok found) = .ok files) :
    outcome = .ok files := by
  obtain ⟨found, rfl, kept⟩ := exists_of_bind_eq_ok h
  split at kept
  · cases kept
  · exact kept

/-- No two files of a run are the same path. -/
theorem pairwise_resolve (wellFormed : tree.WellFormed) {sources : Sources}
    (h : sources.resolve tree = .ok files) :
    files.Pairwise fun earlier later => earlier.same later = false := by
  cases sources with
  | files paths => exact (pairwise_distinct (found_of_nonempty h)).1
  | directory path => exact pairwise_scan wellFormed (found_of_nonempty h)

theorem eq_of_enter (wellFormed : tree.WellFormed) {here : Location} {segment : String}
    (h : tree.enter here segment = .ok location) (file : tree.isFileAt location = true) :
    location = here ++ [segment] ∧
      Path.Component.ofSegment? segment = some (.name segment) := by
  have clash {place : Location} (directory : tree.node? place = some .directory)
      (same : location = place) : False := by
    rw [same, FileTree.isFileAt, directory] at file
    cases file
  unfold FileTree.enter at h
  split at h
  · cases h
  · cases h
  · rename_i directory
    split at h
    · exact (clash directory (Except.ok.inj h).symm).elim
    rename_i solid
    split at h
    · have parent : tree.node? here.dropLast = some .directory :=
        wellFormed.parent (by rw [directory]; rfl)
      exact (clash parent (Except.ok.inj h).symm).elim
    rename_i below
    split at h
    · refine ⟨(Except.ok.inj h).symm, ?_⟩
      rw [Path.Component.ofSegment?, if_neg solid, if_neg below]
    · cases h

/-- A path that leads to a file ends in the name of the file. -/
theorem fileName?_of_locate (wellFormed : tree.WellFormed) {path : Path}
    (located : tree.locate path = .ok location) (file : tree.isFileAt location = true) :
    location ≠ [] ∧ path.fileName? = location.getLast? := by
  unfold FileTree.locate at located
  split at located
  · cases located
  obtain ⟨before, last, split⟩ : ∃ before last, path.segments = before ++ [last] :=
    (List.eq_nil_or_concat' path.segments).resolve_left (by simp [Path.segments])
  rw [split, List.foldlM_append] at located
  obtain ⟨here, -, located⟩ := exists_of_bind_eq_ok located
  rw [List.foldlM_cons] at located
  obtain ⟨place, entered, same⟩ := exists_of_bind_eq_ok located
  cases same
  obtain ⟨rfl, named⟩ := eq_of_enter wellFormed entered file
  unfold Path.fileName? Path.components
  simp [split, named, List.filterMap_append]

theorem fileName?_of_isFile (wellFormed : tree.WellFormed) {path : Path}
    (h : tree.isFile path = true) : path.fileName?.isSome = true := by
  unfold FileTree.isFile at h
  split at h
  · rename_i location located
    obtain ⟨below, named⟩ := fileName?_of_locate wellFormed located h
    rw [named, List.getLast?_eq_some_getLast below]
    rfl
  · cases h

theorem fileName?_join (directory : Path) (named : place.all isFileName = true)
    (below : place ≠ []) : (join directory place).fileName? = place.getLast? := by
  obtain ⟨above, components⟩ := components_join directory
  rw [Path.fileName?, components place named]
  obtain ⟨before, last, split⟩ := (List.eq_nil_or_concat' place).resolve_left below
  simp [split]

theorem isDeclarationFile_iff {node : Node} : isDeclarationFile place node = true ↔
    ∃ content name, node = .file content ∧ place.getLast? = some name ∧
      isDeclarationName name = true := by
  unfold isDeclarationFile
  cases node with
  | directory => simp
  | file content => cases place.getLast? <;> simp

/-- The name of a file that a scan finds declares. -/
theorem exists_fileName?_of_scan (wellFormed : tree.WellFormed) {path : Path}
    (h : scan tree path = .ok files) :
    ∀ file ∈ files, ∃ name, file.fileName? = some name ∧ isDeclarationName name = true := by
  obtain ⟨location, -, -, rfl⟩ := eq_join_of_scan h
  intro file member
  obtain ⟨place, held, rfl⟩ := List.mem_map.mp member
  have named := named_of_mem_declarationPlaces wellFormed held
  rw [declarationPlaces, List.mem_mergeSort] at held
  obtain ⟨⟨found, node⟩, inside, rfl⟩ := List.mem_map.mp held
  obtain ⟨_, name, -, last, declares⟩ := isDeclarationFile_iff.mp (List.mem_filter.mp inside).2
  have below : found ≠ [] := by
    rintro rfl
    cases last
  exact ⟨name, (fileName?_join path named below).trans last, declares⟩

/-- Every file of a run has a file name. -/
theorem isSome_fileName?_of_resolve (wellFormed : tree.WellFormed) {sources : Sources}
    (h : sources.resolve tree = .ok files) : ∀ file ∈ files, file.fileName?.isSome = true := by
  cases sources with
  | files paths =>
    have found := isFile_of_mem_distinct (found_of_nonempty h)
    exact fun file member => fileName?_of_isFile wellFormed (found file member)
  | directory path =>
    intro file member
    obtain ⟨name, named, -⟩ := exists_fileName?_of_scan wellFormed (found_of_nonempty h) file member
    rw [named]
    rfl

end Sources

end QueryContract
