import Mathlib.Data.List.Pairwise
import QueryContract.Proofs.Files.Respelling

/-!
Files that are named one by one. The first that is missing is reported. If none is, a file is kept
unless it respells an earlier one, so every file that is named is read exactly once.
-/

namespace QueryContract

namespace FileTree

/-- The path leads to a file. -/
def HoldsFile (tree : FileTree) (path : Path) : Prop :=
  ∃ location content, tree.locate path = .ok location ∧ tree.node? location = some (.file content)

theorem isFile_iff {tree : FileTree} {path : Path} :
    tree.isFile path = true ↔ tree.HoldsFile path := by
  unfold isFile HoldsFile
  cases tree.locate path with
  | error fault => simp
  | ok location => simp [isFileAt_iff]

end FileTree

namespace Path

variable {paths kept : List Path} {left middle right : Path}

theorem Respells.symm (h : left.Respells right) : right.Respells left :=
  Relation.EqvGen.symm _ _ h

theorem Respells.trans (first : left.Respells middle) (second : middle.Respells right) :
    left.Respells right := Relation.EqvGen.trans _ _ _ first second

/-- What is kept of a list of paths: each that respells none of those before it. -/
inductive KeepsFirst : List Path → List Path → Prop
  | nothing : KeepsFirst [] []
  | first {paths kept : List Path} {path : Path} (before : KeepsFirst paths kept)
    (fresh : ∀ earlier ∈ paths, ¬ earlier.Respells path) :
    KeepsFirst (paths ++ [path]) (kept ++ [path])
  | again {paths kept : List Path} {path earlier : Path} (before : KeepsFirst paths kept)
    (known : earlier ∈ paths) (respells : earlier.Respells path) :
    KeepsFirst (paths ++ [path]) kept

namespace KeepsFirst

theorem sublist (h : KeepsFirst paths kept) : kept.Sublist paths := by
  induction h with
  | nothing => exact .slnil
  | first before fresh ih => exact ih.append (List.Sublist.refl _)
  | again before known respells ih => exact ih.trans (List.sublist_append_left _ _)

theorem exists_respells (h : KeepsFirst paths kept) :
    ∀ path ∈ paths, ∃ first ∈ kept, first.Respells path := by
  induction h with
  | nothing => exact List.forall_mem_nil _
  | first before fresh ih =>
    intro path member
    rcases List.mem_append.mp member with earlier | last
    · obtain ⟨first, held, respells⟩ := ih path earlier
      exact ⟨first, List.mem_append_left _ held, respells⟩
    · exact ⟨path, List.mem_append_right _ last, .refl _⟩
  | again before known respells ih =>
    intro path member
    rcases List.mem_append.mp member with earlier | last
    · exact ih path earlier
    · obtain ⟨first, held, same⟩ := ih _ known
      rw [List.mem_singleton.mp last]
      exact ⟨first, held, same.trans respells⟩

theorem pairwise (h : KeepsFirst paths kept) :
    kept.Pairwise fun earlier later => ¬ earlier.Respells later := by
  induction h with
  | nothing => exact .nil
  | first before fresh ih =>
    apply List.pairwise_append.mpr
    refine ⟨ih, List.pairwise_singleton _ _, fun earlier held path last => ?_⟩
    rw [List.mem_singleton.mp last]
    exact fresh earlier (before.sublist.subset held)
  | again before known respells ih => exact ih

theorem existsUnique (h : KeepsFirst paths kept) :
    ∀ path ∈ paths, ∃! first, first ∈ kept ∧ first.Respells path := by
  intro path member
  obtain ⟨first, held, respells⟩ := h.exists_respells path member
  refine ⟨first, ⟨held, respells⟩, fun other ⟨otherHeld, otherRespells⟩ => ?_⟩
  by_contra distinct
  have symmetric : Std.Symm fun left right : Path => ¬ left.Respells right :=
    ⟨fun _ _ apart respells => apart respells.symm⟩
  have apart := h.pairwise.forall otherHeld held distinct
  exact apart (otherRespells.trans respells.symm)

/-- It is enough to look for an earlier spelling among those that are kept. -/
theorem any_same_iff (h : KeepsFirst paths kept) {path : Path} :
    kept.any (·.same path) = true ↔ ∃ earlier ∈ paths, earlier.Respells path := by
  rw [List.any_eq_true]
  apply Iff.intro
  · rintro ⟨first, held, same⟩
    exact ⟨first, h.sublist.subset held, same_iff_respells.mp same⟩
  · rintro ⟨earlier, member, respells⟩
    obtain ⟨first, held, same⟩ := h.exists_respells earlier member
    exact ⟨first, held, same_iff_respells.mpr (same.trans respells)⟩

end KeepsFirst

end Path

namespace Sources

variable {tree : FileTree}

open QueryContract.Path (KeepsFirst)

theorem distinct_of_held {rest : List Path} (held : ∀ path ∈ rest, tree.HoldsFile path)
    {paths seen : List Path}
    (before : KeepsFirst paths seen) : ∃ found,
      distinct tree seen rest = .ok found ∧ KeepsFirst (paths ++ rest) (seen ++ found) := by
  induction rest generalizing paths seen with
  | nil =>
    refine ⟨[], rfl, ?_⟩
    rw [List.append_nil, List.append_nil]
    exact before
  | cons path rest ih =>
    obtain ⟨here, later⟩ := List.forall_mem_cons.mp held
    have existing : (!tree.isFile path) = false := by rw [FileTree.isFile_iff.mpr here]; rfl
    rw [distinct, existing, if_neg Bool.false_ne_true, List.append_cons paths]
    by_cases known : seen.any (·.same path) = true
    · rw [if_pos known]
      obtain ⟨earlier, member, respells⟩ := before.any_same_iff.mp known
      exact ih later (before.again member respells)
    · rw [if_neg known]
      have fresh : ∀ earlier ∈ paths, ¬ earlier.Respells path := by
        intro earlier member respells
        exact known (before.any_same_iff.mpr ⟨earlier, member, respells⟩)
      obtain ⟨found, resolved, kept⟩ := ih later (before.first fresh)
      refine ⟨path :: found, ?_, ?_⟩
      · rw [resolved]
        rfl
      · rw [List.append_cons seen]
        exact kept

theorem distinct_of_absent {before : List Path} (held : ∀ earlier ∈ before, tree.HoldsFile earlier)
    {path : Path} (absent : ¬ tree.HoldsFile path) (seen after : List Path) :
    distinct tree seen (before ++ path :: after) = .error (.absentFile path) := by
  induction before generalizing seen with
  | nil =>
    rw [← FileTree.isFile_iff, Bool.not_eq_true] at absent
    rw [List.nil_append, distinct, absent]
    rfl
  | cons first others ih =>
    obtain ⟨here, later⟩ := List.forall_mem_cons.mp held
    rw [List.cons_append, distinct, FileTree.isFile_iff.mpr here]
    split
    · rename_i missing
      cases missing
    split
    · exact ih later seen
    · rw [ih later]
      rfl

/-- A list of files is refused for its first file that is missing, or if it is empty. Otherwise what
    is kept of it is read, in its order and as it is spelled. -/
theorem resolve_files (tree : FileTree) (paths : List Path) :
    (∀ left right : Path, left.same right = true ↔ left.Respells right) ∧
    (∀ before path after, paths = before ++ path :: after →
      (∀ earlier ∈ before, tree.HoldsFile earlier) → ¬ tree.HoldsFile path →
      (Sources.files paths).resolve tree = .error (.absentFile path)) ∧
    (paths = [] → (Sources.files paths).resolve tree = .error .nothingToRead) ∧
    (paths ≠ [] → (∀ path ∈ paths, tree.HoldsFile path) →
      ∃ found, (Sources.files paths).resolve tree = .ok found ∧ KeepsFirst paths found ∧
        found.Sublist paths ∧ (found.Pairwise fun earlier later => ¬ earlier.Respells later) ∧
        ∀ path ∈ paths, ∃! kept, kept ∈ found ∧ kept.Respells path) := by
  refine ⟨fun _ _ => Path.same_iff_respells, ?_, ?_, ?_⟩
  · rintro before path after rfl held absent
    rw [resolve, distinct_of_absent held absent]
    rfl
  · rintro rfl
    rfl
  · intro named held
    obtain ⟨found, resolved, kept⟩ := distinct_of_held held .nothing
    rw [List.nil_append, List.nil_append] at kept
    refine ⟨found, ?_, kept, kept.sublist, kept.pairwise, kept.existsUnique⟩
    have read : found.isEmpty = false := by
      obtain ⟨path, rest, rfl⟩ := List.exists_cons_of_ne_nil named
      obtain ⟨first, member, -⟩ := kept.exists_respells path List.mem_cons_self
      rw [List.isEmpty_eq_false_iff]
      exact List.ne_nil_of_mem member
    rw [resolve, resolved]
    show (if found.isEmpty = true then _ else _) = _
    rw [read]
    rfl

/-- One file is spelled in several ways. A slash behind its name asks for a directory. -/
def nestedTree : FileTree where
  workingDirectory := ["w"]
  entries := .ofList [(["w"], .directory), (["w", "a.sql"], .file .empty),
    (["w", "d"], .directory), (["w", "d", "b.sql"], .file .empty)]

theorem resolve_files_of_nestedTree :
    (Sources.files [⟨"d/b.sql"⟩, ⟨"./a.sql"⟩, ⟨"d//./b.sql"⟩, ⟨"a.sql"⟩, ⟨"d/../a.sql"⟩,
      ⟨".//a.sql"⟩]).resolve nestedTree =
        .ok [⟨"d/b.sql"⟩, ⟨"./a.sql"⟩, ⟨"a.sql"⟩, ⟨"d/../a.sql"⟩] ∧
    KeepsFirst [⟨"d/b.sql"⟩, ⟨"./a.sql"⟩, ⟨"d//./b.sql"⟩, ⟨"a.sql"⟩, ⟨"d/../a.sql"⟩, ⟨".//a.sql"⟩]
      [⟨"d/b.sql"⟩, ⟨"./a.sql"⟩, ⟨"a.sql"⟩, ⟨"d/../a.sql"⟩] ∧
    (Sources.files [⟨"a.sql"⟩, ⟨"a.sql/"⟩, ⟨"e.sql"⟩]).resolve nestedTree =
      .error (.absentFile ⟨"a.sql/"⟩) ∧
    (Sources.files []).resolve nestedTree = .error .nothingToRead := by
  let spellings : List Path := [⟨"d/b.sql"⟩, ⟨"./a.sql"⟩, ⟨"d//./b.sql"⟩, ⟨"a.sql"⟩,
    ⟨"d/../a.sql"⟩, ⟨".//a.sql"⟩]
  have held : ∀ path ∈ spellings, nestedTree.HoldsFile path := by
    simp only [← FileTree.isFile_iff]
    decide +kernel
  have absent : ¬ nestedTree.HoldsFile ⟨"a.sql/"⟩ := by
    rw [← FileTree.isFile_iff]
    decide +kernel
  have first : ∀ earlier ∈ [(⟨"a.sql"⟩ : Path)], nestedTree.HoldsFile earlier := by
    simp only [← FileTree.isFile_iff]
    decide +kernel
  have read : (Sources.files spellings).resolve nestedTree =
      .ok [⟨"d/b.sql"⟩, ⟨"./a.sql"⟩, ⟨"a.sql"⟩, ⟨"d/../a.sql"⟩] := by decide +kernel
  obtain ⟨-, -, -, kept⟩ := resolve_files nestedTree spellings
  obtain ⟨-, refused, -, -⟩ := resolve_files nestedTree [⟨"a.sql"⟩, ⟨"a.sql/"⟩, ⟨"e.sql"⟩]
  obtain ⟨-, -, nothing, -⟩ := resolve_files nestedTree []
  obtain ⟨found, resolved, firsts, -⟩ := kept nofun held
  rw [read] at resolved
  cases resolved
  exact ⟨read, firsts, refused _ _ [⟨"e.sql"⟩] rfl first absent, nothing rfl⟩

end Sources

end QueryContract
