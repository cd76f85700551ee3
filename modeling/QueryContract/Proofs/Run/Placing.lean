import QueryContract.Proofs.Files.Tree
import QueryContract.Proofs.Naming.FreeNumber
import QueryContract.Proofs.Run.Ending
import QueryContract.Run.Generate

/-!
Placing a file: the missing directories are made, the content goes to a temporary file, and this
file takes the place of the target. The last step fails only where a directory stands at the target,
and then the directories above it were there before. A length that the system does not take is found
on the way, and the directories that were made by then stay.
-/

namespace QueryContract

namespace Artifact

variable {tree other : FileTree} {target : Location}

theorem marked_injective (target : Location) (m n : Nat)
    (same : marked target m = marked target n) : m = n := by
  have last := List.append_cancel_left same
  rw [List.cons.injEq] at last
  have number := String.append_right_inj _ |>.mp (String.append_right_inj _ |>.mp last.1)
  exact Nat.add_left_cancel (Number.showNat_injective _ _ number)

theorem marked_ne_nil (target : Location) (n : Nat) : marked target n ≠ [] := by simp [marked]

theorem marked_concat (above : Location) (last : String) (n : Nat) :
    marked (above ++ [last]) n = above ++ [last ++ temporaryMark n] := by
  rw [marked, List.dropLast_concat, List.getLastD_concat]

theorem temporaryMark_ne_empty (n : Nat) : temporaryMark n ≠ "" := by
  intro same
  have texts := congrArg String.toList same
  rw [temporaryMark, String.toList_append] at texts
  cases texts

/-- No marked location is on the way to the target. -/
theorem marked_not_isPrefix (below : target ≠ []) (n : Nat) : ¬ marked target n <+: target := by
  obtain ⟨above, last, rfl⟩ := (List.eq_nil_or_concat' target).resolve_left below
  rw [marked_concat]
  intro h
  have whole := h.eq_of_length (by rw [List.length_append, List.length_append]; rfl)
  have same := List.append_cancel_left whole
  rw [List.cons.injEq] at same
  exact temporaryMark_ne_empty n (String.append_eq_left_iff.mp same.1)

/-- The mark stands at the end of the path text. -/
theorem text_path_marked (below : target ≠ []) (n : Nat) :
    (Location.path (marked target n)).text = (Location.path target).text ++ temporaryMark n := by
  obtain ⟨above, last, rfl⟩ := (List.eq_nil_or_concat' target).resolve_left below
  rw [marked_concat, Location.path, Location.path]
  by_cases top : above = []
  · simp [top, String.append_assoc]
  · simp [String.intercalate_append_of_ne_nil top, String.append_assoc]

theorem node?_temporaryBeside (tree : FileTree) (target : Location) :
    tree.node? (temporaryBeside tree target) = none := by
  have held : ∀ n, (tree.node? (marked target n)).isSome = true →
      marked target n ∈ tree.entries.keys :=
    fun n found => FileTree.mem_keys_of_isSome_node? (marked_ne_nil target n) found
  have free := Number.leastFree_free (marked target) (marked_injective target) tree.entries.keys
    (fun n => (tree.node? (marked target n)).isSome) held 0 tree.entries.keys.length (Nat.le_refl _)
  exact Option.isNone_iff_eq_none.mp (Option.isSome_eq_false_iff.mp free)

/-- Only what stands beside the target decides which name is not in use. -/
theorem temporaryBeside_congr
    (same : ∀ n, tree.node? (marked target n) = other.node? (marked target n)) :
    temporaryBeside tree target = temporaryBeside other target := by
  have free := node?_temporaryBeside tree target
  have free' := node?_temporaryBeside other target
  simp only [temporaryBeside, same] at free free' ⊢
  exact congrArg (marked target) (Number.leastFree_eq_of_free
    (by rw [free]; rfl) (by rw [free']; rfl))

end Artifact

namespace FileTree

variable {tree made : FileTree} {temporary target : Location} {content : ByteArray}

/-- The file is at the target with the content. The directories above it are there, and all else is
    as it was before. -/
structure HasFile (before after : FileTree) (target : Location) (content : ByteArray) : Prop where
  workingDirectory : after.workingDirectory = before.workingDirectory
  node : ∀ location, after.node? location =
    if location = target then some (.file content)
    else if location <+: target ∧ before.node? location = none then some .directory
    else before.node? location
  free : before.isDirectoryAt target = false
  wellFormed : after.WellFormed

theorem isPrefix_dropLast_iff {location : Location} (below : target ≠ []) :
    location <+: target.dropLast ↔ location <+: target ∧ location ≠ target := by
  have split : target.dropLast ++ [target.getLast below] = target :=
    List.dropLast_append_getLast below
  constructor
  · intro above
    refine ⟨above.trans (List.dropLast_prefix target), ?_⟩
    rintro rfl
    have bound := above.length_le
    have length := congrArg List.length split
    simp only [List.length_append, List.length_singleton] at length
    omega
  · rintro ⟨above, proper⟩
    rw [← split] at above
    rcases List.prefix_concat_iff.mp above with same | above
    · exact absurd (same.trans split) proper
    · exact above

theorem HasDirectories.node?_target (h : tree.HasDirectories made target.dropLast)
    (below : target ≠ []) : made.node? target = tree.node? target := by
  rw [h.node, if_neg]
  rintro ⟨above, -⟩
  exact ((isPrefix_dropLast_iff below).mp above).2 rfl

theorem HasDirectories.hasFile (wellFormed : tree.WellFormed)
    (h : tree.HasDirectories made target.dropLast) (names : target.all isFileName = true)
    (below : target ≠ []) (free : made.isDirectoryAt target = false) (content : ByteArray) :
    tree.HasFile (made.put target (.file content)) target content where
  workingDirectory := h.workingDirectory
  node location := by
    rw [node?_put below]
    by_cases same : location = target
    · rw [if_pos same, if_pos same]
    · rw [if_neg same, if_neg same, h.node]
      simp only [isPrefix_dropLast_iff below, ne_eq, same, not_false_iff, and_true]
  free := by
    rw [isDirectoryAt, h.node?_target below] at free
    exact free
  wellFormed := by
    have above : target.dropLast.all isFileName = true :=
      List.all_eq_true.mpr fun name member =>
        List.all_eq_true.mp names name (List.dropLast_subset target member)
    have enclosed := isDirectoryAt_iff.mpr (h.directory target.dropLast List.prefix_rfl)
    exact (h.wellFormed wellFormed above).put names enclosed free (.file content)

/-- Where a directory stands, no directory above it was missing. -/
theorem eq_of_isDirectoryAt (wellFormed : tree.WellFormed) (below : target ≠ [])
    (h : tree.makeDirectories target.dropLast = .ok made)
    (directory : made.isDirectoryAt target = true) : made = tree := by
  have same := (hasDirectories_of_makeDirectories wellFormed h).node?_target below
  have found : tree.node? target = some .directory := same ▸ isDirectoryAt_iff.mp directory
  have parent := isDirectoryAt_iff.mpr (wellFormed.parent (by rw [found]; rfl))
  rw [makeDirectories_of_isDirectoryAt (isLong_of_makeDirectories h) parent] at h
  exact (Except.ok.inj h).symm

theorem refuses_of_free {location : Location} (free : tree.node? location = none) :
    tree.refuses location = (location.isLong || isLongName (location.getLastD "")) := by
  rw [refuses, free]
  rfl

/-- The target has room where its temporary file has it. -/
theorem refuses_of_marked (below : target ≠ []) {n : Nat}
    (free : tree.node? (Artifact.marked target n) = none)
    (fits : tree.refuses (Artifact.marked target n) = false) (other : FileTree) :
    other.refuses target = false := by
  have text := Artifact.text_path_marked below n
  obtain ⟨above, last, rfl⟩ := (List.eq_nil_or_concat' target).resolve_left below
  rw [refuses_of_free free] at fits
  rw [Artifact.marked_concat] at fits text
  rw [refuses]
  simp only [Location.isLong, isLongName, text, List.getLastD_concat, Bool.or_eq_false_iff,
    decide_eq_false_iff_not, Nat.not_lt, String.utf8ByteSize_append] at fits ⊢
  refine ⟨by omega, ?_⟩
  rw [Bool.and_eq_false_iff, decide_eq_false_iff_not]
  exact .inr (by omega)

theorem writeFile_of_free (free : tree.node? temporary = none) (content : ByteArray) :
    tree.writeFile temporary content =
      if tree.refuses temporary then .error .nameTooLong
      else .ok (tree.put temporary (.file content)) := by
  have clear : tree.isDirectoryAt temporary = false := by rw [isDirectoryAt, free]
  simp only [writeFile, clear, Bool.false_eq_true, if_false]

theorem moveFile_put (named : temporary ≠ []) (free : tree.node? temporary = none)
    (fits : ∀ other : FileTree, other.refuses target = false) (content : ByteArray) :
    (tree.put temporary (.file content)).moveFile temporary target =
      if tree.isDirectoryAt target then .error .isDirectory
      else .ok (tree.put target (.file content)) := by
  have source : (tree.put temporary (.file content)).node? temporary = some (.file content) := by
    rw [node?_put named, if_pos rfl]
  have obstacle : (tree.put temporary (.file content)).isDirectoryAt target =
      tree.isDirectoryAt target := by
    by_cases same : target = temporary
    · rw [same, isDirectoryAt, isDirectoryAt, source, free]
    · rw [isDirectoryAt, isDirectoryAt, node?_put named, if_neg same]
  simp only [moveFile, source, fits, obstacle, remove_put free, Bool.false_eq_true, if_false]

/-- The directories above the target and a temporary file beside it are not too long. -/
structure HasRoom (tree : FileTree) (target : Location) : Prop where
  directories : Location.isLong target.dropLast = false
  temporary : tree.refuses (Artifact.temporaryBeside tree target) = false

theorem HasRoom.congr (room : tree.HasRoom target)
    (same : ∀ n, tree.node? (Artifact.marked target n) = made.node? (Artifact.marked target n)) :
    made.HasRoom target where
  directories := room.directories
  temporary := by
    have fits := room.temporary
    rw [refuses_of_free (Artifact.node?_temporaryBeside tree target),
      Artifact.temporaryBeside_congr same] at fits
    rw [refuses_of_free (Artifact.node?_temporaryBeside made target), fits]

/-- How far down the directories above a target are made before a length is found that the system
    does not take: that of the path, of the next name or of the temporary file. -/
inductive StopsAt (tree : FileTree) (target : Location) : Location → Prop
  | path : Location.isLong target.dropLast = true → StopsAt tree target []
  | name {reached : Location} {name : String} : reached ++ [name] <+: target.dropLast →
      isLongName name = true → tree.node? (reached ++ [name]) = none → StopsAt tree target reached
  | temporary : tree.refuses (Artifact.temporaryBeside tree target) = true →
      StopsAt tree target target.dropLast

theorem stopsAt_of_nameTooLong
    (h : tree.makeDirectories target.dropLast = .error .nameTooLong) :
    tree.StopsAt target (tree.reach target.dropLast) := by
  rcases reach_of_nameTooLong h with ⟨long, reached⟩ | ⟨name, above, long, free⟩
  · exact reached ▸ .path long
  · exact .name above long free

section Directories

variable (directories : tree.HasDirectories made target.dropLast) (below : target ≠ [])
include directories below

theorem HasDirectories.node?_marked (n : Nat) :
    made.node? (Artifact.marked target n) = tree.node? (Artifact.marked target n) := by
  rw [directories.node, if_neg]
  rintro ⟨above, -⟩
  exact Artifact.marked_not_isPrefix below n (above.trans (List.dropLast_prefix target))

theorem HasDirectories.stopsAt
    (refused : made.refuses (Artifact.temporaryBeside made target) = true) :
    tree.StopsAt target target.dropLast := by
  rw [refuses_of_free (Artifact.node?_temporaryBeside made target),
    Artifact.temporaryBeside_congr (directories.node?_marked below)] at refused
  apply StopsAt.temporary
  rw [refuses_of_free (Artifact.node?_temporaryBeside tree target), refused]

end Directories

theorem HasFile.node?_marked {after : FileTree} (file : tree.HasFile after target content)
    (below : target ≠ []) (n : Nat) :
    after.node? (Artifact.marked target n) = tree.node? (Artifact.marked target n) := by
  have apart := Artifact.marked_not_isPrefix below n
  rw [file.node, if_neg, if_neg fun both => apart both.1]
  intro same
  rw [same] at apart
  exact apart List.prefix_rfl

end FileTree

def Failure.isTooLong : Failure → Bool
  | output _ .nameTooLong => true
  | _ => false

/-- A failed run has left the tree as it was. Only if a length is at fault, it has left the
    directories that were made by then, and nothing else. -/
structure FileTree.Abandoned (before after : FileTree) (target : Location) (failure : Failure) :
    Prop where
  unchanged : failure.isTooLong = false → after = before
  stopped : failure.isTooLong = true → ∃ reached, before.StopsAt target reached ∧
    before.HasDirectories after reached

namespace Run

variable {before : Session} {failed : Failure → Session → Prop} {target : Location}

theorem ends_makeDirectories {location : Location} {returned : Unit → Session → Prop}
    (ok : ∀ made, before.tree.makeDirectories location = .ok made →
      returned () { before with tree := made })
    (error : ∀ fault, before.tree.makeDirectories location = .error fault →
      failed (.output location.path fault)
        { before with tree := before.tree.addDirectories (before.tree.reach location) }) :
    Ends (makeDirectories location) before returned failed := by
  apply ends_tree
  split
  · rename_i made h
    exact ok made h
  · rename_i fault h
    exact error fault h

/-- The end of a run that has written a temporary file: either the file has moved to the target, or
    a directory stands there and the tree is as it was before the file was written. -/
theorem ends_replace {tree : FileTree} {temporary : Location} {content : ByteArray}
    {returned : Unit → Session → Prop} (named : temporary ≠ [])
    (free : tree.node? temporary = none)
    (fits : ∀ other : FileTree, other.refuses target = false)
    (ok : tree.isDirectoryAt target = false →
      returned () { before with tree := tree.put target (.file content) })
    (error : tree.isDirectoryAt target = true →
      failed (.output target.path .isDirectory) { before with tree := tree }) :
    Ends (replace temporary target)
      { before with tree := tree.put temporary (.file content) } returned failed := by
  have moves := FileTree.moveFile_put named free fits content
  apply ends_tree
  cases obstacle : tree.isDirectoryAt target with
  | false =>
    rw [obstacle, if_neg Bool.false_ne_true] at moves
    rw [moves]
    exact ok obstacle
  | true =>
    have failure := error obstacle
    rw [obstacle, if_pos rfl] at moves
    rw [← FileTree.remove_put free (.file content)] at failure
    rw [moves]
    exact failure

theorem ends_place (before : Session) (wellFormed : before.tree.WellFormed)
    (names : target.all FileTree.isFileName = true) (below : target ≠ []) (content : ByteArray) :
    Ends (place target content) before
      (fun _ after => after.log = before.log ∧ before.tree.HasFile after.tree target content ∧
        after.tree.HasRoom target)
      (fun failure after => before.tree.Abandoned after.tree target failure) := by
  apply ends_bind
  apply ends_makeDirectories
  · intro made h
    have directories := FileTree.hasDirectories_of_makeDirectories wellFormed h
    apply ends_tree
    have free := Artifact.node?_temporaryBeside made target
    have writes := FileTree.writeFile_of_free free content
    apply ends_bind
    -- Nothing stands where the temporary file goes, so only its length is in the way.
    cases refused : made.refuses (Artifact.temporaryBeside made target) with
    | true =>
      rw [refused, if_pos rfl] at writes
      apply ends_change
      · intro written h'
        cases writes.symm.trans h'
      · intro fault h'
        cases writes.symm.trans h'
        exact ⟨nofun, fun _ => ⟨_, directories.stopsAt below refused, directories⟩⟩
    | false =>
      rw [refused, if_neg Bool.false_ne_true] at writes
      apply ends_change
      · intro written h'
        cases writes.symm.trans h'
        apply ends_replace (Artifact.marked_ne_nil target _) free
          (FileTree.refuses_of_marked below free refused)
        · intro clear
          have file := directories.hasFile wellFormed names below clear content
          have room : made.HasRoom target := ⟨FileTree.isLong_of_makeDirectories h, refused⟩
          refine ⟨rfl, file, room.congr fun n => ?_⟩
          rw [directories.node?_marked below, file.node?_marked below]
        · intro obstacle
          exact ⟨fun _ => FileTree.eq_of_isDirectoryAt wellFormed below h obstacle, nofun⟩
      · intro fault h'
        cases writes.symm.trans h'
  · intro fault h
    refine ⟨fun other => ?_, fun long => ?_⟩
    · apply FileTree.addDirectories_reach_of_makeDirectories wellFormed h
      rintro rfl
      cases other
    · cases fault with
      | nameTooLong =>
        exact ⟨_, FileTree.stopsAt_of_nameTooLong h, FileTree.hasDirectories_reach _ _⟩
      | _ => cases long

/-- Nothing changes when a file is placed where it is. -/
theorem run_place_again (wellFormed : before.tree.WellFormed) {content : ByteArray}
    (below : target ≠ []) (room : before.tree.HasRoom target)
    (found : before.tree.node? target = some (.file content)) :
    (place target content).run.run before = (.ok (), before) := by
  let temporary := Artifact.temporaryBeside before.tree target
  have parent := FileTree.isDirectoryAt_iff.mpr (wellFormed.parent (by rw [found]; rfl))
  have made : before.tree.makeDirectories target.dropLast = .ok before.tree :=
    FileTree.makeDirectories_of_isDirectoryAt room.directories parent
  have free := Artifact.node?_temporaryBeside before.tree target
  have written : before.tree.writeFile temporary content =
      .ok (before.tree.put temporary (.file content)) := by
    rw [FileTree.writeFile_of_free free, room.temporary, if_neg Bool.false_ne_true]
  have kept : before.tree.put target (.file content) = before.tree :=
    FileTree.put_of_node? below found
  have clear : before.tree.isDirectoryAt target = false := by
    rw [FileTree.isDirectoryAt, found]
  have moved : (before.tree.put temporary (.file content)).moveFile temporary target =
      .ok before.tree := by
    have moves := FileTree.moveFile_put (Artifact.marked_ne_nil target _) free
      (FileTree.refuses_of_marked below free room.temporary) content
    rw [clear, if_neg Bool.false_ne_true, kept] at moves
    exact moves
  have ends : Ends (place target content) before (fun _ after => after = before)
      (fun _ _ => False) := by
    apply ends_bind
    apply ends_makeDirectories
    · intro changed h
      cases made.symm.trans h
      apply ends_tree
      apply ends_bind
      apply ends_change
      · intro changed h
        cases written.symm.trans h
        apply ends_tree
        rw [moved]
        rfl
      · intro fault h
        cases written.symm.trans h
    · intro fault h
      cases made.symm.trans h
  rw [Ends] at ends
  split at ends
  · rename_i ran
    rw [ran, ends]
  · exact ends.elim

/-- Placing a file fails for the file system alone. -/
theorem ends_place_output (before : Session) (target : Location) (content : ByteArray) :
    Ends (place target content) before (fun _ _ => True)
      (fun failure _ => ∃ path fault, failure = .output path fault) := by
  apply ends_bind
  apply ends_makeDirectories _ fun fault _ => ⟨_, fault, rfl⟩
  intro made _
  apply ends_tree
  apply ends_bind
  apply ends_change _ fun fault _ => ⟨_, fault, rfl⟩
  intro written _
  apply ends_tree
  split
  · trivial
  · rename_i fault _
    exact ⟨_, fault, rfl⟩

end Run

end QueryContract
