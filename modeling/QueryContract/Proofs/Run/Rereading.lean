import QueryContract.Proofs.Files.Scanning
import QueryContract.Proofs.Run.Placing
import QueryContract.Run.Session

/-!
Reading a file tree again after a file was added to it, with the directories above that file: every
path leads where it led before, and what a run reads is the same if the file is none of its sources.
-/

namespace QueryContract

namespace FileTree

variable {before after : FileTree} {target location : Location} {content : ByteArray} {path : Path}

theorem isSome_node?_of_enter (wellFormed : before.WellFormed) {here : Location} {segment : String}
    (h : before.enter here segment = .ok location) : (before.node? location).isSome = true := by
  unfold enter at h
  split at h
  · cases h
  · cases h
  · rename_i directory
    split at h
    · rw [← Except.ok.inj h, directory]
      rfl
    split at h
    · rw [← Except.ok.inj h, wellFormed.parent (by rw [directory]; rfl)]
      rfl
    split at h
    · rename_i found
      exact Except.ok.inj h ▸ found
    · cases h

theorem isSome_node?_of_locate (wellFormed : before.WellFormed)
    (h : before.locate path = .ok location) : (before.node? location).isSome = true := by
  unfold locate at h
  split at h
  · cases h
  obtain ⟨front, last, split⟩ : ∃ front last, path.segments = front ++ [last] :=
    (List.eq_nil_or_concat' path.segments).resolve_left (by simp [Path.segments])
  rw [split, List.foldlM_append] at h
  obtain ⟨here, -, h⟩ := exists_of_bind_eq_ok h
  rw [List.foldlM_cons] at h
  obtain ⟨place, entered, same⟩ := exists_of_bind_eq_ok h
  cases same
  exact isSome_node?_of_enter wellFormed entered

theorem exists_of_content (h : before.content path = .ok content) :
    ∃ location, before.locate path = .ok location ∧
      before.node? location = some (.file content) := by
  unfold FileTree.content at h
  split at h
  · cases h
  rename_i location located
  split at h
  · rename_i found
    cases h
    exact ⟨location, located, found⟩
  · cases h
  · cases h

theorem content_of_locate (located : before.locate path = .ok location)
    (found : before.node? location = some (.file content)) :
    before.content path = .ok content := by
  rw [FileTree.content, located]
  simp only [found]

namespace HasFile

variable (h : before.HasFile after target content)
include h

theorem node?_of_isSome (found : (before.node? location).isSome = true)
    (apart : location ≠ target) : after.node? location = before.node? location := by
  rw [h.node, if_neg apart, if_neg]
  rintro ⟨-, free⟩
  rw [free] at found
  cases found

theorem node?_directory (found : before.node? location = some .directory) :
    after.node? location = some .directory := by
  have apart : location ≠ target := by
    rintro rfl
    have free := h.free
    rw [isDirectoryAt_iff.mpr found] at free
    cases free
  rw [h.node?_of_isSome (by rw [found]; rfl) apart, found]

theorem isSome_node? (found : (before.node? location).isSome = true) :
    (after.node? location).isSome = true := by
  by_cases same : location = target
  · rw [h.node, if_pos same]
    rfl
  · rw [h.node?_of_isSome found same, found]

theorem isFileAt (found : before.isFileAt location = true) : after.isFileAt location = true := by
  obtain ⟨bytes, file⟩ := isFileAt_iff.mp found
  apply isFileAt_iff.mpr
  by_cases same : location = target
  · rw [h.node, if_pos same]
    exact ⟨content, rfl⟩
  · rw [h.node?_of_isSome (by rw [file]; rfl) same]
    exact ⟨bytes, file⟩

theorem enter {here : Location} {segment : String}
    (entered : before.enter here segment = .ok location) :
    after.enter here segment = .ok location := by
  unfold FileTree.enter at entered ⊢
  split at entered
  · cases entered
  · cases entered
  · rename_i directory
    rw [h.node?_directory directory]
    split at entered
    · rename_i empty
      rw [← entered, if_pos empty]
    · rename_i solid
      rw [if_neg solid]
      split at entered
      · rename_i up
        rw [← entered, if_pos up]
      · rename_i down
        rw [if_neg down]
        split at entered
        · rename_i found
          rw [← entered, if_pos (h.isSome_node? found)]
        · cases entered

theorem foldlM_enter {segments : List String} {here : Location}
    (entered : segments.foldlM before.enter here = .ok location) :
    segments.foldlM after.enter here = .ok location := by
  induction segments generalizing here with
  | nil => exact entered
  | cons segment rest ih =>
    rw [List.foldlM_cons] at entered ⊢
    obtain ⟨next, first, later⟩ := exists_of_bind_eq_ok entered
    rw [h.enter first]
    exact ih later

theorem locate (located : before.locate path = .ok location) :
    after.locate path = .ok location := by
  unfold FileTree.locate at located ⊢
  split at located
  · cases located
  · rename_i written
    rw [if_neg written, origin, h.workingDirectory]
    exact h.foldlM_enter located

theorem isFile (found : before.isFile path = true) : after.isFile path = true := by
  unfold FileTree.isFile at found
  split at found
  · rename_i location located
    rw [FileTree.isFile, h.locate located]
    exact h.isFileAt found
  · cases found

/-- A path that does not lead to the new file leads to the content that it led to. -/
theorem content_of_apart {bytes : ByteArray} (read : before.content path = .ok bytes)
    (apart : before.locate path ≠ .ok target) : after.content path = .ok bytes := by
  obtain ⟨location, located, found⟩ := exists_of_content read
  have elsewhere : location ≠ target := by
    rintro rfl
    exact apart located
  apply content_of_locate (h.locate located)
  rw [h.node?_of_isSome (by rw [found]; rfl) elsewhere, found]

end HasFile

end FileTree

namespace Sources

variable {before after : FileTree} {target : Location} {content : ByteArray} {files : List Path}

theorem distinct_of_isFile {seen paths : List Path}
    (kept : ∀ path, before.isFile path = true → after.isFile path = true)
    (h : distinct before seen paths = .ok files) : distinct after seen paths = .ok files := by
  induction paths generalizing seen files with
  | nil => exact h
  | cons path rest ih =>
    have found := kept path (distinct_cons_eq_ok h).1
    rw [distinct] at h ⊢
    rw [if_neg (by simpa using found)]
    split at h
    · cases h
    split at h
    · rename_i known
      rw [if_pos known, ih h]
    · rename_i fresh
      rw [if_neg fresh]
      cases later : distinct before (seen ++ [path]) rest with
      | error fault => rw [later] at h; cases h
      | ok others => rw [ih later, ← h, later]

/-- The last name of a location is that of no declaration file. -/
def Undeclared (location : Location) : Prop :=
  ∀ name, location.getLast? = some name → isDeclarationName name = false

theorem not_declared_of_undeclared {start place : Location} {node : Node}
    (undeclared : Undeclared (start ++ place)) : isDeclarationFile place node = false := by
  rw [Bool.eq_false_iff]
  intro declares
  obtain ⟨_, name, -, last, declared⟩ := isDeclarationFile_iff.mp declares
  rw [undeclared name (by rw [List.getLast?_append, last]; rfl)] at declared
  cases declared

variable (h : before.HasFile after target content)
include h

/-- Neither the new file nor a directory above it is found by a scan. -/
theorem scan_hasFile (undeclared : Undeclared target) {path : Path}
    (found : scan before path = .ok files) : scan after path = .ok files := by
  obtain ⟨location, located, existing, rfl⟩ := eq_join_of_scan found
  rw [FileTree.isDirectoryAt_iff] at existing
  have places : declarationPlaces after location = declarationPlaces before location := by
    apply declarationPlaces_congr
    intro place node declares
    rw [h.node]
    split
    · rename_i same
      rw [not_declared_of_undeclared (same ▸ undeclared)] at declares
      cases declares
    split
    · rename_i added
      obtain ⟨_, _, rfl, -, -⟩ := isDeclarationFile_iff.mp declares
      rw [added.2]
      exact ⟨nofun, nofun⟩
    · rfl
  rw [scan, h.locate located]
  simp only [FileTree.isDirectoryAt_iff.mpr (h.node?_directory existing), if_true, places]

theorem resolve_hasFile (undeclared : Undeclared target) {sources : Sources}
    (found : sources.resolve before = .ok files) : sources.resolve after = .ok files := by
  have nonempty {outcome other : Except SourceFault (List Path)}
      (same : ∀ files, outcome = .ok files → other = .ok files)
      (met : (outcome >>= fun found =>
        if found.isEmpty then .error .nothingToRead else .ok found) = .ok files) :
      (other >>= fun found =>
        if found.isEmpty then .error .nothingToRead else .ok found) = .ok files := by
    obtain ⟨found, rfl, kept⟩ := exists_of_bind_eq_ok met
    rw [same found rfl]
    exact kept
  cases sources with
  | files paths => exact nonempty (fun files => distinct_of_isFile fun path => h.isFile) found
  | directory path => exact nonempty (fun files => scan_hasFile h undeclared) found

end Sources

namespace Sources

variable {before after : FileTree} {target location : Location} {content : ByteArray}
  {files : List Path}

/-- None of these sources is another way to write the artifact's path. A scan names no path. -/
def Spare (tree : FileTree) (artifact : Path) : Sources → Prop
  | .files paths => ∀ path ∈ paths, ∀ location, tree.locate path = .ok location →
      tree.locate artifact ≠ .ok location
  | .directory _ => True

theorem mem_of_mem_distinct {seen paths : List Path}
    (h : distinct before seen paths = .ok files) : files ⊆ paths := by
  induction paths generalizing seen files with
  | nil => cases h; exact List.nil_subset _
  | cons path rest ih =>
    rcases (distinct_cons_eq_ok h).2 with known | ⟨-, others, later, rfl⟩
    · exact List.subset_cons_of_subset path (ih known)
    · exact List.cons_subset_cons path (ih later)

/-- No file of a run leads to the place of its artifact. -/
theorem locate_ne_of_spare (wellFormed : before.WellFormed)
    (free : before.isDirectoryAt target = false) (undeclared : Undeclared target)
    {sources : Sources} (spare : sources.Spare before (Location.path target))
    (h : sources.resolve before = .ok files) : ∀ file ∈ files, before.locate file ≠ .ok target := by
  intro file member located
  have found := FileTree.isSome_node?_of_locate wellFormed located
  cases sources with
  | files paths =>
    have listed := mem_of_mem_distinct (found_of_nonempty h) member
    exact spare file listed target located (FileTree.locate_path wellFormed found)
  | directory path =>
    have isFile : before.isFileAt target = true := by
      rw [Option.isSome_iff_exists] at found
      obtain ⟨node, node?⟩ := found
      cases node with
      | directory =>
        rw [FileTree.isDirectoryAt_iff.mpr node?] at free
        cases free
      | file bytes => exact FileTree.isFileAt_iff.mpr ⟨bytes, node?⟩
    obtain ⟨name, named, declared⟩ :=
      exists_fileName?_of_scan wellFormed (found_of_nonempty h) file member
    obtain ⟨-, last⟩ := fileName?_of_locate wellFormed located isFile
    rw [undeclared name (last.symm.trans named)] at declared
    cases declared

end Sources

end QueryContract
