import QueryContract.Proofs.Artifact.Name
import QueryContract.Proofs.Files.Resolving

/-!
The name of an artifact and the place that it gives to the file. A name is its segments: which of the
separators stands between them does not matter, and the file has one component for each of them.
-/

namespace QueryContract.ArtifactName

open FileTree (isFileName)

variable {raw : String} {name other : ArtifactName}

def IsLetter (c : Char) : Prop := 'A' ≤ c ∧ c ≤ 'Z' ∨ 'a' ≤ c ∧ c ≤ 'z'

def IsDigit (c : Char) : Prop := '0' ≤ c ∧ c ≤ '9'

/-- A letter or an underscore, and then any number of letters, digits and underscores. -/
def IsSegment (text : List Char) : Prop :=
  ∃ first rest, text = first :: rest ∧ (IsLetter first ∨ first = '_') ∧
    ∀ c ∈ rest, IsLetter c ∨ IsDigit c ∨ c = '_'

/-- Each backslash becomes a dot, and each dot a backslash. -/
def exchange (raw : String) : String :=
  String.ofList (raw.toList.map fun c => if c = '\\' then '.' else if c = '.' then '\\' else c)

/-- What a name that was read has to do with its text. -/
structure Follows (name : ArtifactName) (raw : String) : Prop where
  segments : name.segments.map String.toList = segmentsOf raw
  enclosing : name.enclosing?.elim [] segmentsOf ++ [name.container.toList] = segmentsOf raw
  exchanged : read? (exchange raw) = some name
  displayed : read? name.display = some name
  relative : name.path.isAbsolute = false
  components : name.path.components =
    name.parents.map .name ++ [.name (name.container ++ ".php")]
  ordinary : ∀ part ∈ name.location, isFileName part = true
  /-- Followed from a directory, the path leads to one place below it or nowhere. -/
  inside : ∀ (tree : FileTree) (directory location : Location),
    name.path.segments.foldlM tree.enter directory = .ok location →
      location = directory ++ name.location

section Segments

theorem isSeparator_of_isNamePart {c : Char} (h : Text.isNamePart c = true) :
    isSeparator c = false :=
  Text.namePart_cases (p := fun c => isSeparator c = false) (by decide) h

theorem isName_iff (text : List Char) : Text.isName text = true ↔ IsSegment text := by
  have letter (c : Char) : c.isAlpha = true ↔ IsLetter c := by
    have upper : c.isUpper = true ↔ 'A' ≤ c ∧ c ≤ 'Z' := decide_eq_true_iff
    have lower : c.isLower = true ↔ 'a' ≤ c ∧ c ≤ 'z' :=
      Bool.and_eq_true_iff.trans (and_congr decide_eq_true_iff decide_eq_true_iff)
    exact Bool.or_eq_true_iff.trans (or_congr upper lower)
  have digit (c : Char) : c.isDigit = true ↔ IsDigit c :=
    Bool.and_eq_true_iff.trans (and_congr decide_eq_true_iff decide_eq_true_iff)
  cases text with
  | nil => simp [Text.isName, IsSegment]
  | cons first rest =>
    simp [Text.isName, Text.isNameStart, Text.isNamePart, Char.isAlphanum, IsSegment, letter, digit,
      or_assoc]

theorem segmentsOf_intercalate {parts : List String} (nonempty : parts ≠ [])
    (names : ∀ part ∈ parts, Text.isName part.toList = true) :
    segmentsOf ("\\".intercalate parts) = parts.map String.toList := by
  rw [segmentsOf, String.toList_intercalate]
  apply Text.splitOnP_intercalate rfl (by simpa using nonempty)
  intro segment member c inside
  obtain ⟨part, listed, rfl⟩ := List.mem_map.mp member
  exact isSeparator_of_isNamePart (Text.isNamePart_of_isName (names part listed) c inside)

theorem segmentsOf_exchange (raw : String) : segmentsOf (exchange raw) = segmentsOf raw := by
  rw [segmentsOf, segmentsOf, exchange, String.toList_ofList]
  apply Text.splitOnP_congr
  rw [List.forall₂_map_left_iff, List.forall₂_same]
  intro c _
  by_cases backslash : c = '\\'
  · simp [backslash, isSeparator]
  · by_cases dot : c = '.'
    · simp [dot, isSeparator]
    · simp [backslash, dot]

theorem isSome_read?_iff :
    (read? raw).isSome = true ↔ ∀ segment ∈ segmentsOf raw, IsSegment segment := by
  simp only [← isName_iff]
  constructor
  · intro read
    obtain ⟨name, read⟩ := Option.isSome_iff_exists.mp read
    exact (read?_eq_some_iff.mp read).2
  · intro names
    have nonempty : segmentsOf raw ≠ [] := List.splitOnP_ne_nil _ _
    rw [read?, ← segmentsOf, if_pos (List.all_eq_true.mpr names),
      List.getLast?_eq_some_getLast nonempty]
    rfl

theorem enclosing?_append (names : ∀ segment ∈ name.segments, Text.isName segment.toList = true) :
    name.enclosing?.elim [] segmentsOf ++ [name.container.toList] =
      name.segments.map String.toList := by
  obtain ⟨parents, container⟩ := name
  rw [segments, List.map_append, List.map_singleton]
  congr 1
  by_cases alone : parents = []
  · simp [enclosing?, alone]
  · rw [enclosing?, if_neg (by simpa using alone)]
    exact segmentsOf_intercalate alone fun part member => names part (List.mem_append_left _ member)

theorem read?_display (h : read? raw = some name) : read? name.display = some name := by
  have names := isName_of_read h
  have split : segmentsOf name.display = name.segments.map String.toList :=
    segmentsOf_intercalate (by simp [segments]) names
  rw [read?_eq_some_iff, split]
  exact ⟨rfl, List.forall_mem_map.mpr names⟩

end Segments

section Place

theorem location_ne_nil (name : ArtifactName) : name.location ≠ [] := by simp [location]

theorem segments_path (named : name.location.all isFileName = true) :
    name.path.segments = name.location := by
  rcases Path.segments_intercalate named with split | ⟨root, -⟩
  · exact split
  · exact absurd root (location_ne_nil name)

/-- Neither a slash nor a dot can be told from the first segment. -/
theorem head?_location (named : name.location.all isFileName = true) :
    name.location.head? ≠ some "" ∧ name.location.head? ≠ some "." := by
  obtain ⟨first, rest, split⟩ := List.exists_cons_of_ne_nil (location_ne_nil name)
  rw [split, List.all_cons, Bool.and_eq_true] at named
  rw [split, List.head?_cons]
  constructor
  · intro empty
    rw [Option.some.inj empty] at named
    exact absurd named.1 (by decide)
  · intro dot
    rw [Option.some.inj dot] at named
    exact absurd named.1 (by decide)

theorem isAbsolute_path (named : name.location.all isFileName = true) :
    name.path.isAbsolute = false := by
  apply Bool.eq_false_iff.mpr
  intro absolute
  have first := Path.head?_segments_of_isAbsolute absolute
  rw [segments_path named] at first
  exact (head?_location named).1 first

theorem components_path (named : name.location.all isFileName = true) :
    name.path.components = name.location.map .name := by
  rw [Path.components, isAbsolute_path named, segments_path named,
    Path.filterMap_ofSegment?_of_named named]
  simp [(head?_location named).2]

theorem location_injective (h : name.location = other.location) : name = other := by
  obtain ⟨parents, container⟩ := name
  obtain ⟨parents', container'⟩ := other
  simp only [location, List.append_singleton_inj, String.append_left_inj] at h
  rw [h.1, h.2]

/-- The place tells the name, even if paths are compared by their components. -/
theorem same_path_iff (named : name.location.all isFileName = true)
    (namedOther : other.location.all isFileName = true) :
    name.path.same other.path = true ↔ name = other := by
  rw [Path.same, decide_eq_true_iff, components_path named, components_path namedOther]
  constructor
  · intro same
    apply location_injective
    exact List.map_injective_iff.mpr (fun _ _ => Path.Component.name.inj) same
  · intro same
    rw [same]

end Place

theorem follows_of_read (h : read? raw = some name) : name.Follows raw := by
  have names := isName_of_read h
  have named := isFileName_location h
  have split := (read?_eq_some_iff.mp h).1
  constructor
  · exact split
  · rw [← split]
    exact enclosing?_append names
  · rw [read?_eq_some_iff, segmentsOf_exchange]
    exact read?_eq_some_iff.mp h
  · exact read?_display h
  · exact isAbsolute_path named
  · rw [components_path named, location, List.map_append, List.map_singleton]
  · exact List.all_eq_true.mp named
  · intro tree directory location followed
    rw [segments_path named] at followed
    exact FileTree.eq_of_foldlM_enter named followed

/-- A text is a name exactly if all of its segments are identifiers. The place of the file follows
    from the segments alone, and tells them; it is always below the directory it starts from. -/
theorem names_give_places (raw : String) :
    ((read? raw).isSome = true ↔ ∀ segment ∈ segmentsOf raw, IsSegment segment) ∧
      ∀ name, read? raw = some name → name.Follows raw ∧
        ∀ otherRaw other, read? otherRaw = some other →
          (name.path = other.path ↔ name = other) ∧
            (name.path.same other.path = true ↔ name = other) := by
  refine ⟨isSome_read?_iff, ?_⟩
  intro name read
  refine ⟨follows_of_read read, ?_⟩
  intro otherRaw other readOther
  have same := same_path_iff (isFileName_location read) (isFileName_location readOther)
  refine ⟨⟨?_, congrArg path⟩, same⟩
  intro equal
  apply same.mp
  rw [equal]
  exact Path.same_self _

theorem places_of_dottedName :
    (read? "Queries.").isSome = false ∧
      read? "Vendor\\Plugin.Queries" = some ⟨["Vendor", "Plugin"], "Queries"⟩ ∧
      ArtifactName.path ⟨["Vendor", "Plugin"], "Queries"⟩ ≠
        ArtifactName.path ⟨["Plugin"], "Queries"⟩ := by
  have read : read? "Vendor.Plugin\\Queries" = some ⟨["Vendor", "Plugin"], "Queries"⟩ := by
    decide +kernel
  have readOther : read? "Plugin.Queries" = some ⟨["Plugin"], "Queries"⟩ := by decide +kernel
  obtain ⟨follows, places⟩ := (names_give_places "Vendor.Plugin\\Queries").2 _ read
  refine ⟨?_, ?_, ?_⟩
  · apply Bool.eq_false_iff.mpr
    intro accepted
    -- after the dot stands an empty segment
    have empty := (names_give_places "Queries.").1.mp accepted [] (by decide +kernel)
    simp [IsSegment] at empty
  · have exchanged : exchange "Vendor.Plugin\\Queries" = "Vendor\\Plugin.Queries" := by
      decide +kernel
    rw [← exchanged]
    exact follows.exchanged
  · intro equal
    exact absurd ((places _ _ readOther).1.mp equal) (by decide)

end QueryContract.ArtifactName
