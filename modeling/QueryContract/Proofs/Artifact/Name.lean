import QueryContract.Artifact.Name
import QueryContract.Proofs.Files.Tree
import QueryContract.Proofs.Text.Ascii

/-!
The segments of an artifact name that was read: identifiers, so that directories and files can be
named for them.
-/

namespace QueryContract.ArtifactName

open FileTree (isFileName)

variable {raw : String} {name : ArtifactName}

/-- What stands between the separators of a text. -/
def segmentsOf (raw : String) : List (List Char) := raw.toList.splitOnP isSeparator

theorem eq_iff_map_segments {parents : List (List Char)} {container : List Char} :
    ⟨parents.map String.ofList, String.ofList container⟩ = name ↔
      name.segments.map String.toList = parents ++ [container] := by
  constructor
  · intro same
    subst name
    simp [segments]
  · intro same
    obtain ⟨above, last⟩ := name
    rw [segments, List.map_append, List.map_singleton, List.append_singleton_inj] at same
    obtain ⟨rfl, rfl⟩ := same
    simp

theorem read?_eq_some_iff : read? raw = some name ↔
    name.segments.map String.toList = segmentsOf raw ∧
      ∀ segment ∈ segmentsOf raw, Text.isName segment = true := by
  have nonempty : segmentsOf raw ≠ [] := List.splitOnP_ne_nil _ _
  have split := (List.dropLast_append_getLast nonempty).symm
  rw [read?, ← segmentsOf]
  generalize (segmentsOf raw).dropLast = parents, (segmentsOf raw).getLast nonempty = container
    at split
  rw [split, List.getLast?_concat, Option.map_some, ← List.all_eq_true, ← eq_iff_map_segments]
  cases names : (parents ++ [container]).all Text.isName <;> simp

theorem isName_of_read (h : read? raw = some name) :
    ∀ segment ∈ name.segments, Text.isName segment.toList = true := by
  obtain ⟨segments, names⟩ := read?_eq_some_iff.mp h
  rw [← segments] at names
  exact List.forall_mem_map.mp names

theorem notMem_of_isName {segment : List Char} (h : Text.isName segment = true) :
    '/' ∉ segment ∧ '.' ∉ segment := by
  have parts := Text.isNamePart_of_isName h
  exact ⟨fun slash => absurd (parts '/' slash) (by decide),
    fun dot => absurd (parts '.' dot) (by decide)⟩

theorem isFileName_of_isName {segment : String} (h : Text.isName segment.toList = true) :
    isFileName segment = true := by
  obtain ⟨slash, dot⟩ := notMem_of_isName h
  have special : segment ∉ ["", ".", ".."] := by
    simp only [List.mem_cons, List.not_mem_nil, or_false, not_or]
    refine ⟨?_, ?_, ?_⟩
    · rintro rfl
      cases h
    · rintro rfl
      exact dot (by decide)
    · rintro rfl
      exact dot (by decide)
  simp [isFileName, special, slash]

/-- Whatever comes before it, an extension makes a name that is no dot. -/
theorem isFileName_php {container : String} (h : Text.isName container.toList = true) :
    isFileName (container ++ ".php") = true := by
  have slash : '/' ∉ (container ++ ".php").toList := by
    rw [String.toList_append, List.mem_append, not_or]
    exact ⟨(notMem_of_isName h).1, by decide⟩
  have long : 4 ≤ (container ++ ".php").toList.length := by simp
  have special : container ++ ".php" ∉ ["", ".", ".."] := by
    intro member
    have short : ∀ name ∈ ["", ".", ".."], name.toList.length < 4 := by decide
    exact absurd long (Nat.not_le_of_lt (short _ member))
  simp only [isFileName, List.contains_eq_mem, special, slash]
  rfl

theorem isFileName_location (h : read? raw = some name) : name.location.all isFileName = true := by
  have names := isName_of_read h
  rw [segments, List.forall_mem_append, List.forall_mem_singleton] at names
  rw [location, List.all_append, Bool.and_eq_true, List.all_eq_true]
  refine ⟨fun segment member => isFileName_of_isName (names.1 segment member), ?_⟩
  rw [List.all_cons, isFileName_php names.2]
  rfl

end QueryContract.ArtifactName
