import Mathlib.Data.List.Infix
import QueryContract.Files.Tree
import QueryContract.Proofs.Association

/-!
What is where after an edit of a file tree. In a well-formed tree everything lies in a directory and
has a name that can be written in a path, and edits keep a tree well-formed.
-/

namespace QueryContract

namespace FileTree

variable {tree : FileTree} {location other : Location} {node : Node}

theorem node?_of_ne_nil (h : location ≠ []) : tree.node? location = tree.entries.get? location := by
  rw [node?, if_neg (by simpa using h)]

theorem mem_keys_of_isSome_node? (h : location ≠ []) (found : (tree.node? location).isSome = true) :
    location ∈ tree.entries.keys := by
  rw [node?_of_ne_nil h] at found
  exact Association.isSome_get?_iff.mp found

theorem isSome_node?_of_mem_keys (h : location ∈ tree.entries.keys) :
    (tree.node? location).isSome = true := by
  by_cases root : location = []
  · subst root
    rfl
  · rw [node?_of_ne_nil root]
    exact Association.isSome_get?_iff.mpr h

theorem isDirectoryAt_iff :
    tree.isDirectoryAt location = true ↔ tree.node? location = some .directory := by
  unfold isDirectoryAt
  split <;> simp_all

theorem exists_of_isDirectory {path : Path} (h : tree.isDirectory path = true) :
    ∃ location, tree.locate path = .ok location ∧ tree.isDirectoryAt location = true := by
  unfold isDirectory at h
  split at h
  · rename_i location located
    exact ⟨location, located, h⟩
  · cases h

theorem isFileAt_iff :
    tree.isFileAt location = true ↔ ∃ content, tree.node? location = some (.file content) := by
  unfold isFileAt
  split
  · rename_i content found
    exact iff_of_true rfl ⟨content, found⟩
  · rename_i other
    apply iff_of_false Bool.false_ne_true
    intro ⟨content, found⟩
    exact other content found

theorem isFileAt_eq_false_iff : tree.isFileAt location = false ↔
    tree.node? location = none ∨ tree.node? location = some .directory := by
  unfold isFileAt
  split
  · simp_all
  · rename_i other
    simp only [true_iff]
    cases found : tree.node? location with
    | none => exact .inl rfl
    | some node =>
      cases node with
      | directory => exact .inr rfl
      | file content => exact absurd found (other content)

theorem node?_put (h : location ≠ []) (node : Node) (other : Location) :
    (tree.put location node).node? other =
      if other = location then some node else tree.node? other := by
  by_cases root : other = []
  · subst root
    rw [if_neg (Ne.symm h)]
    rfl
  · rw [node?_of_ne_nil root, node?_of_ne_nil root]
    exact Association.get?_put location other node tree.entries

theorem put_of_node? (h : location ≠ []) (found : tree.node? location = some node) :
    tree.put location node = tree := by
  rw [node?_of_ne_nil h] at found
  rw [put, Association.put_of_get? found]

theorem remove_put (free : tree.node? location = none) (node : Node) :
    (tree.put location node).remove location = tree := by
  have absent : tree.entries.contains location = false := by
    refine Association.contains_eq_false_iff.mpr fun member => ?_
    have found := isSome_node?_of_mem_keys member
    rw [free] at found
    cases found
  rw [remove, put, Association.erase_put_of_absent absent]

theorem mem_chain : other ∈ chain location ↔ other <+: location := by
  simp only [chain, List.mem_map, List.mem_range]
  constructor
  · rintro ⟨count, -, rfl⟩
    exact List.take_prefix count location
  · intro h
    exact ⟨other.length, Nat.lt_succ_of_le h.length_le, (List.prefix_iff_eq_take.mp h).symm⟩

theorem node?_addDirectory (tree : FileTree) (location other : Location) :
    (tree.addDirectory location).node? other =
      if other = location ∧ tree.node? other = none then some .directory
      else tree.node? other := by
  rw [addDirectory]
  split
  · rename_i found
    rw [if_neg]
    rintro ⟨rfl, free⟩
    rw [free] at found
    cases found
  · rename_i free
    rw [Option.isSome_iff_ne_none, not_not] at free
    have below : location ≠ [] := by
      rintro rfl
      cases free
    rw [node?_put below]
    by_cases same : other = location
    · rw [if_pos same, if_pos ⟨same, same ▸ free⟩]
    · rw [if_neg same, if_neg fun both => same both.1]

theorem node?_foldl_addDirectory (locations : List Location) (tree : FileTree) (other : Location) :
    (locations.foldl addDirectory tree).node? other =
      if other ∈ locations ∧ tree.node? other = none then some .directory
      else tree.node? other := by
  induction locations generalizing tree with
  | nil => simp
  | cons location rest ih =>
    rw [List.foldl_cons, ih, node?_addDirectory]
    by_cases free : tree.node? other = none
    · by_cases same : other = location
      · subst same
        simp [free]
      · simp [same, free]
    · simp [free]

theorem workingDirectory_foldl_addDirectory (locations : List Location) (tree : FileTree) :
    (locations.foldl addDirectory tree).workingDirectory = tree.workingDirectory := by
  induction locations generalizing tree with
  | nil => rfl
  | cons location rest ih =>
    rw [List.foldl_cons, ih, addDirectory]
    split <;> rfl

/-- A name that stands for itself in a path. It may have any length. -/
def isFileName (name : String) : Bool :=
  !(["", ".", ".."].contains name) && !name.toList.contains '/'

structure WellFormed (tree : FileTree) : Prop where
  named : ∀ location ∈ tree.entries.keys, location.all isFileName = true
  enclosed : ∀ location ∈ tree.entries.keys, tree.isDirectoryAt location.dropLast = true

namespace WellFormed

theorem names (wellFormed : tree.WellFormed) (found : (tree.node? location).isSome = true) :
    location.all isFileName = true := by
  by_cases root : location = []
  · rw [root, List.all_nil]
  · exact wellFormed.named location (mem_keys_of_isSome_node? root found)

theorem parent (wellFormed : tree.WellFormed) (found : (tree.node? location).isSome = true) :
    tree.node? location.dropLast = some .directory := by
  by_cases root : location = []
  · subst root
    rfl
  · exact isDirectoryAt_iff.mp (wellFormed.enclosed location (mem_keys_of_isSome_node? root found))

theorem ancestor (wellFormed : tree.WellFormed) (found : (tree.node? location).isSome = true)
    (h : other <+: location) (proper : other ≠ location) :
    tree.node? other = some .directory := by
  induction location using List.reverseRecOn with
  | nil => exact absurd (List.prefix_nil.mp h) proper
  | append_singleton above last ih =>
    have enclosing := wellFormed.parent found
    rw [List.dropLast_concat] at enclosing
    rcases List.prefix_concat_iff.mp h with same | h
    · exact absurd same proper
    · by_cases same : other = above
      · rw [same, enclosing]
      · exact ih (by rw [enclosing]; rfl) h same

theorem of_nodes (names : ∀ location, (tree.node? location).isSome = true →
      location.all isFileName = true)
    (parents : ∀ location, (tree.node? location).isSome = true →
      tree.node? location.dropLast = some .directory) : tree.WellFormed where
  named location member := names location (isSome_node?_of_mem_keys member)
  enclosed location member :=
    isDirectoryAt_iff.mpr (parents location (isSome_node?_of_mem_keys member))

/-- A new node lies in a directory and holds no other nodes. -/
theorem put (wellFormed : tree.WellFormed) (h : location.all isFileName = true)
    (enclosed : tree.isDirectoryAt location.dropLast = true)
    (free : tree.isDirectoryAt location = false) (node : Node) :
    (tree.put location node).WellFormed := by
  have below : location ≠ [] := by
    rintro rfl
    cases free
  have apart : ∀ place, tree.node? place = some .directory → place ≠ location := by
    rintro place found rfl
    rw [isDirectoryAt_iff.mpr found] at free
    cases free
  apply of_nodes
  · intro place found
    rw [node?_put below] at found
    split at found
    · rename_i same
      rw [same, h]
    · exact wellFormed.names found
  · intro place found
    rw [node?_put below] at found ⊢
    have parent : tree.node? place.dropLast = some .directory := by
      split at found
      · rename_i same
        rw [same, isDirectoryAt_iff.mp enclosed]
      · exact wellFormed.parent found
    rw [if_neg (apart _ parent), parent]

end WellFormed

/-- The directories up to a location are there, and nothing else has changed. -/
structure HasDirectories (before after : FileTree) (location : Location) : Prop where
  workingDirectory : after.workingDirectory = before.workingDirectory
  node : ∀ other, after.node? other =
    if other <+: location ∧ before.node? other = none then some .directory else before.node? other
  directory : ∀ other, other <+: location → after.node? other = some .directory

theorem HasDirectories.wellFormed {made : FileTree} (wellFormed : tree.WellFormed)
    (h : tree.HasDirectories made location) (names : location.all isFileName = true) :
    made.WellFormed := by
  apply WellFormed.of_nodes
  · intro other found
    rw [h.node] at found
    split at found
    · rename_i added
      obtain ⟨rest, rfl⟩ := added.1
      rw [List.all_append, Bool.and_eq_true] at names
      exact names.1
    · exact wellFormed.names found
  · intro other found
    rw [h.node] at found
    split at found
    · rename_i added
      exact h.directory _ ((List.dropLast_prefix other).trans added.1)
    · have parent := wellFormed.parent found
      rw [h.node, if_neg (by simp [parent]), parent]

theorem foldl_addDirectory_of_isSome {locations : List Location}
    (found : ∀ other ∈ locations, (tree.node? other).isSome = true) :
    locations.foldl addDirectory tree = tree := by
  induction locations with
  | nil => rfl
  | cons other rest ih =>
    obtain ⟨first, later⟩ := List.forall_mem_cons.mp found
    rw [List.foldl_cons, addDirectory, if_pos first, ih later]

theorem addDirectories_of_isDirectoryAt (wellFormed : tree.WellFormed)
    (h : tree.isDirectoryAt location = true) : tree.addDirectories location = tree := by
  apply foldl_addDirectory_of_isSome
  intro other member
  have found := isDirectoryAt_iff.mp h
  by_cases same : other = location
  · rw [same, found]
    rfl
  · rw [wellFormed.ancestor (by rw [found]; rfl) (mem_chain.mp member) same]
    rfl

theorem hasDirectories_addDirectories
    (clear : ∀ other, other <+: location → tree.isFileAt other = false) :
    tree.HasDirectories (tree.addDirectories location) location := by
  have nodes (other : Location) : (tree.addDirectories location).node? other =
      if other <+: location ∧ tree.node? other = none then some .directory
      else tree.node? other := by
    simp only [addDirectories, node?_foldl_addDirectory, mem_chain]
  refine ⟨workingDirectory_foldl_addDirectory _ tree, nodes, fun other above => ?_⟩
  rw [nodes]
  rcases isFileAt_eq_false_iff.mp (clear other above) with free | found
  · rw [if_pos ⟨above, free⟩]
  · rw [if_neg (by simp [found]), found]

theorem hasDirectories_self (wellFormed : tree.WellFormed)
    (h : tree.isDirectoryAt location = true) : tree.HasDirectories tree location := by
  have added := addDirectories_of_isDirectoryAt wellFormed h
  rw [isDirectoryAt_iff] at h
  have clear : ∀ other, other <+: location → tree.isFileAt other = false := by
    intro other above
    apply isFileAt_eq_false_iff.mpr
    by_cases same : other = location
    · exact .inr (same ▸ h)
    · exact .inr (wellFormed.ancestor (by rw [h]; rfl) above same)
  have directories := hasDirectories_addDirectories clear
  rw [added] at directories
  exact directories

section Reach

theorem isFileAt_of_admits (h : tree.admits location = true) : tree.isFileAt location = false := by
  unfold admits at h
  apply isFileAt_eq_false_iff.mpr
  split at h
  · rename_i found
    exact .inr found
  · cases h
  · rename_i free
    exact .inl free

/-- What no directory can be made of is a file or has a name that is too long. -/
theorem isFileAt_or_isLongName_of_admits (h : tree.admits location = false) :
    tree.isFileAt location = true ∨
      tree.node? location = none ∧ isLongName (location.getLastD "") = true := by
  unfold admits at h
  split at h
  · cases h
  · rename_i content found
    exact .inl (isFileAt_iff.mpr ⟨content, found⟩)
  · rename_i free
    exact .inr ⟨free, by simpa using h⟩

variable {here : Location} {names : List String}

theorem reachFrom_isPrefix (tree : FileTree) (here : Location) (names : List String) :
    tree.reachFrom here names <+: here ++ names := by
  induction names generalizing here with
  | nil => simp [reachFrom]
  | cons name rest ih =>
    rw [reachFrom]
    split
    · exact List.append_cons here name rest ▸ ih (here ++ [name])
    · exact List.prefix_append here _

theorem admits_of_isPrefix_reachFrom (h : ∀ other, other <+: here → tree.admits other = true) :
    ∀ other, other <+: tree.reachFrom here names → tree.admits other = true := by
  induction names generalizing here with
  | nil => exact h
  | cons name rest ih =>
    rw [reachFrom]
    split
    · rename_i next
      apply ih
      intro other above
      rcases List.prefix_concat_iff.mp above with rfl | above
      · exact next
      · exact h other above
    · exact h

/-- The names are followed to their end or to one that is not admitted. -/
theorem reachFrom_stops (tree : FileTree) (here : Location) (names : List String) :
    tree.reachFrom here names = here ++ names ∨
      ∃ name, tree.reachFrom here names ++ [name] <+: here ++ names ∧
        tree.admits (tree.reachFrom here names ++ [name]) = false := by
  induction names generalizing here with
  | nil => simp [reachFrom]
  | cons name rest ih =>
    rw [reachFrom, List.append_cons here name rest]
    split
    · exact ih (here ++ [name])
    · rename_i stopped
      exact .inr ⟨name, List.prefix_append _ _, Bool.eq_false_iff.mpr stopped⟩

theorem reach_isPrefix (tree : FileTree) (location : Location) :
    tree.reach location <+: location := by
  rw [reach]
  split
  · exact List.nil_prefix
  · exact reachFrom_isPrefix tree [] location

theorem admits_of_isPrefix_reach (above : other <+: tree.reach location) :
    tree.admits other = true := by
  have root : ∀ other, other <+: [] → tree.admits other = true := by
    rintro other above
    rw [List.prefix_nil.mp above]
    rfl
  rw [reach] at above
  split at above
  · exact root other above
  · exact admits_of_isPrefix_reachFrom root other above

theorem hasDirectories_reach (tree : FileTree) (location : Location) :
    tree.HasDirectories (tree.addDirectories (tree.reach location)) (tree.reach location) :=
  hasDirectories_addDirectories fun _ above => isFileAt_of_admits (admits_of_isPrefix_reach above)

/-- The directories above a file are there. -/
theorem isDirectoryAt_reach (wellFormed : tree.WellFormed) (above : other <+: location)
    (file : tree.isFileAt other = true) : tree.isDirectoryAt (tree.reach location) = true := by
  have beyond : ¬ other <+: tree.reach location := by
    intro reached
    rw [isFileAt_of_admits (admits_of_isPrefix_reach reached)] at file
    cases file
  have short : tree.reach location <+: other :=
    (List.prefix_or_prefix_of_prefix (reach_isPrefix tree location) above).resolve_right beyond
  obtain ⟨content, found⟩ := isFileAt_iff.mp file
  apply isDirectoryAt_iff.mpr
  apply wellFormed.ancestor (by rw [found]; rfl) short
  rintro same
  exact beyond (same ▸ List.prefix_rfl)

end Reach

section MakeDirectories

variable {made : FileTree} {fault : FileFault}

theorem makeDirectories_of_isDirectoryAt (short : location.isLong = false)
    (h : tree.isDirectoryAt location = true) : tree.makeDirectories location = .ok tree := by
  rw [makeDirectories, short, isDirectoryAt_iff.mp h]
  rfl

theorem isLong_of_makeDirectories (h : tree.makeDirectories location = .ok made) :
    location.isLong = false := by
  unfold makeDirectories at h
  split at h
  · cases h
  · rename_i short
    exact Bool.eq_false_iff.mpr short

theorem hasDirectories_of_makeDirectories (wellFormed : tree.WellFormed)
    (h : tree.makeDirectories location = .ok made) : tree.HasDirectories made location := by
  unfold makeDirectories at h
  split at h
  · cases h
  split at h
  · rename_i found
    exact Except.ok.inj h ▸ hasDirectories_self wellFormed (isDirectoryAt_iff.mpr found)
  · cases h
  split at h
  · cases h
  split at h
  · rename_i clear _
    rw [Bool.not_eq_true, List.any_eq_false] at clear
    rw [← Except.ok.inj h]
    apply hasDirectories_addDirectories
    exact fun other above => Bool.not_eq_true _ ▸ clear other (mem_chain.mpr above)
  · cases h

/-- Only a length that the system does not take is found after a directory was made. -/
theorem addDirectories_reach_of_makeDirectories (wellFormed : tree.WellFormed)
    (h : tree.makeDirectories location = .error fault) (other : fault ≠ .nameTooLong) :
    tree.addDirectories (tree.reach location) = tree := by
  have obstacle : ∃ place, place <+: location ∧ tree.isFileAt place = true := by
    unfold makeDirectories at h
    split at h
    · exact absurd (Except.error.inj h).symm other
    split at h
    · cases h
    · rename_i content found
      exact ⟨location, List.prefix_rfl, isFileAt_iff.mpr ⟨content, found⟩⟩
    split at h
    · rename_i blocked
      obtain ⟨place, member, file⟩ := List.any_eq_true.mp blocked
      exact ⟨place, mem_chain.mp member, file⟩
    split at h
    · cases h
    · exact absurd (Except.error.inj h).symm other
  obtain ⟨place, above, file⟩ := obstacle
  exact addDirectories_of_isDirectoryAt wellFormed (isDirectoryAt_reach wellFormed above file)

/-- The whole path is too long, or the next name is. -/
theorem reach_of_nameTooLong (h : tree.makeDirectories location = .error .nameTooLong) :
    location.isLong = true ∧ tree.reach location = [] ∨
      ∃ name, tree.reach location ++ [name] <+: location ∧ isLongName name = true ∧
        tree.node? (tree.reach location ++ [name]) = none := by
  unfold makeDirectories at h
  split at h
  · rename_i long
    exact .inl ⟨long, by rw [reach, if_pos long]⟩
  rename_i short
  split at h
  · cases h
  · cases h
  split at h
  · cases h
  rename_i clear
  split at h
  · cases h
  rename_i stopped
  have reached : tree.reach location = tree.reachFrom [] location := by rw [reach, if_neg short]
  obtain ⟨name, above, refused⟩ := (reachFrom_stops tree [] location).resolve_left
    (reached ▸ stopped)
  rw [← reached, List.nil_append] at above
  rw [← reached] at refused
  rw [Bool.not_eq_true, List.any_eq_false] at clear
  have noFile := clear _ (mem_chain.mpr above)
  have free := (isFileAt_or_isLongName_of_admits refused).resolve_left noFile
  rw [List.getLastD_concat] at free
  exact .inr ⟨name, above, free.2, free.1⟩

end MakeDirectories

end FileTree

end QueryContract
