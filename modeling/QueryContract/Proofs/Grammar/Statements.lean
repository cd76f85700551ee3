import Mathlib.Data.List.Forall2
import QueryContract.Proofs.Grammar.Contents
import QueryContract.Proofs.Grammar.Documents
import QueryContract.Proofs.Grammar.Positions

/-!
The statements of a text that is read without a fault: one for each group without groups of its own,
in the order in which these groups open. They hold all query text of the file, each line of it once
and in its place.
-/

namespace QueryContract

open Text

/-- The lines of the query. -/
def Statement.queryLines (statement : Statement) : List (List Char) :=
  statement.query.toList.splitOn '\n'

/-- The statement is what a group of the file declares. -/
structure Statement.StandsFor (path : Path) (statement : Statement) (group : Group) : Prop where
  name : statement.name = group.fullName
  line : statement.line = group.number
  file : statement.file = path
  declarations : statement.declarations.pairs = group.inside.own.filterMap Line.declared?
  doc : statement.doc =
    Reader.trimString ("\n".intercalate (group.inside.own.filterMap Line.description?))
  query : statement.queryLines.filter isQueryText = group.inside.own.filterMap Line.query?
  starts : ∃ first ∈ statement.queryLines.head?, isQueryText first = true

/-- The statements of a document are those of the groups in a text, and nothing of it is lost. -/
structure Document.AccountsFor (document : Document) (path : Path) (text : String) : Prop where
  /-- The groups are those of the one forest that the lines make up. -/
  statements : ∃ forest : Forest, forest.lines = linesOf text ∧
    (∀ other : Forest, other.lines = linesOf text → other = forest) ∧
      (∀ group ∈ forest.groups [] 1, group.OpensIn 1 (linesOf text)) ∧
        List.Forall₂ (Statement.StandsFor path) document.statements
          ((forest.groups [] 1).filter Group.isLeaf)
  increasing : (document.statements.map Statement.line).Pairwise (· < ·)
  query : document.statements.flatMap (fun statement =>
      statement.queryLines.filter isQueryText) =
    ((text.toList.splitOn '\n').filter isQueryText).map trimEnd

namespace Group

variable {group : Group}

theorem line_statement (path : Path) (group : Group) :
    (group.statement path).line = group.number :=
  OpenGroup.line_takeAll _ _

theorem queryLines_statement (path : Path) (sound : ∀ line ∈ group.inside.own, line.Sound)
    (holds : ∃ line ∈ group.inside.own, line.isQuery = true) :
    (group.statement path).queryLines =
      (queryTexts group.inside.own).rdropWhile List.isEmpty := by
  have each := queryTexts_sound sound
  obtain ⟨first, rest, split, query⟩ := exists_head_queryTexts sound holds
  have full : ∃ text ∈ queryTexts group.inside.own, text ≠ [] :=
    ⟨first, by rw [split]; exact List.mem_cons_self, ne_nil_of_isQueryText query⟩
  have taken : ((OpenGroup.opened group.name group.number).takeAll group.inside.own).query =
      (queryTexts group.inside.own).map String.ofList := OpenGroup.query_takeAll rfl _
  rw [← splitOn_trimEnd_intercalate (fun text member => (each text member).1)
    (fun text member => (each text member).2) full, Statement.queryLines, statement,
    Reader.statementOf, taken, Reader.trimEndString, String.toList_ofList,
    String.toList_intercalate, List.map_map]
  simp only [Function.comp_def, String.toList_ofList, List.map_id']
  rfl

theorem standsFor_statement (path : Path) (regular : group.Regular) (leaf : group.isLeaf = true)
    (formed : ∀ line ∈ group.inside.own, line.WellFormed)
    (sound : ∀ line ∈ group.inside.own, line.Sound) :
    (group.statement path).StandsFor path group := by
  have holds : ∃ line ∈ group.inside.own, line.isQuery = true := by
    rcases regular.shape with ⟨branch, -⟩ | ⟨-, query, -⟩
    · rw [isLeaf, branch] at leaf
      cases leaf
    · exact query
  have lines := queryLines_statement path sound holds
  constructor
  · rfl
  · exact line_statement path group
  · rfl
  · exact OpenGroup.pairs_takeAll _ formed regular.distinct fun _ _ => rfl
  · exact congrArg (fun doc => Reader.trimString ("\n".intercalate doc))
      (OpenGroup.doc_takeAll _ group.inside.own)
  · rw [lines, filter_rdropWhile_isEmpty, filter_queryTexts sound]
  · obtain ⟨first, rest, split, query⟩ := exists_head_queryTexts sound holds
    refine ⟨first, ?_, query⟩
    rw [lines, split]
    exact head?_rdropWhile_isEmpty (ne_nil_of_isQueryText query)

end Group

namespace Forest

/-- What stands in a group stands in the lines around it. -/
theorem own_subset_lines (forest : Forest) : forest.own ⊆ forest.lines := by
  induction forest with
  | nil => exact List.Subset.refl []
  | line first plain rest ih => exact List.cons_subset_cons first ih
  | group name inside ending rest _ ihRest =>
    intro line member
    simp [lines, ihRest member]

theorem own_subset_of_mem_groups {forest : Forest} {group : Group} {around : List String}
    {number : Nat} (h : group ∈ forest.groups around number) :
    group.inside.own ⊆ forest.lines := by
  induction forest generalizing around number with
  | nil => cases h
  | line first plain rest ih => exact List.subset_cons_of_subset first (ih h)
  | group name inside ending rest ihInside ihRest =>
    intro line member
    rcases List.mem_cons.mp h with rfl | h
    · simp [lines, own_subset_lines inside member]
    · rcases List.mem_append.mp h with within | later
      · simp [lines, ihInside within member]
      · simp [lines, ihRest later member]

theorem lines_eq_own {forest : Forest} (h : forest.hasGroup = false) :
    forest.lines = forest.own := by
  induction forest with
  | nil => rfl
  | line first plain rest ih => rw [lines, own, ih h]
  | group name inside ending rest => cases h

theorem query?_eq_none {line : Line} (h : line.isContent = false) : line.query? = none := by
  rw [← Option.isNone_iff_eq_none, ← Option.not_isSome, line.isSome_query?,
    ((Line.isContent_eq_false_iff line).mp h).1]
  rfl

/-- The query lines of a forest are those of its leaves, if its own lines are no content. -/
theorem filterMap_query?_lines {forest : Forest} {around : List String} {number : Nat}
    (plain : ∀ line ∈ forest.own, line.isContent = false)
    (regular : ∀ group ∈ forest.groups around number, group.Regular) :
    forest.lines.filterMap Line.query? =
      ((forest.groups around number).filter Group.isLeaf).flatMap fun group =>
        group.inside.own.filterMap Line.query? := by
  induction forest generalizing around number with
  | nil => rfl
  | line first bracketless rest ih =>
    obtain ⟨head, others⟩ := List.forall_mem_cons.mp plain
    rw [lines, List.filterMap_cons_none (query?_eq_none head), ih others regular, groups]
  | group name inside ending rest ihInside ihRest =>
    obtain ⟨here, others⟩ := List.forall_mem_cons.mp regular
    obtain ⟨within, later⟩ := List.forall_mem_append.mp others
    rw [lines, List.filterMap_cons_none rfl, List.filterMap_append, List.filterMap_cons_none rfl,
      ihRest plain later, groups, List.filter_cons, List.filter_append, Group.isLeaf]
    rcases here.shape with ⟨branch, level⟩ | ⟨leaf, -⟩
    · rw [ihInside level within, branch, Bool.not_true, if_neg Bool.false_ne_true,
        List.flatMap_append]
    · rw [groups_eq_nil_of_hasGroup leaf, lines_eq_own leaf, leaf, Bool.not_false, if_pos rfl]
      rfl

end Forest

namespace Document

variable {path : Path} {text : String} {document : Document}

/-- A document is read from a forest of regular groups, and holds the statements of its leaves. -/
theorem exists_forest_of_read (h : read path text = .ok document) :
    ∃ forest : Forest, forest.lines = linesOf text ∧
      (∀ line ∈ forest.lines, line.WellFormed) ∧
        (∀ line ∈ forest.own, line.isContent = false) ∧
          (∀ group ∈ forest.groups [] 1, group.Regular) ∧
            document.statements = forest.statements path [] 1 := by
  obtain ⟨forest, same, accepted, rfl⟩ := read_eq_ok_iff.mp h
  exact ⟨forest, same, accepted.formed, accepted.level, accepted.regular, rfl⟩

/-- What a statement of a document declares stands on a line of the text. -/
theorem exists_line_of_read (h : read path text = .ok document) :
    ∀ statement ∈ document.statements, ∀ name ∈ statement.declarations.keys,
      ∃ line ∈ linesOf text, line.WellFormed ∧
        ∃ declaration, line.declared? = some (name, declaration) := by
  obtain ⟨forest, same, accepted, rfl⟩ := read_eq_ok_iff.mp h
  intro statement member name declared
  obtain ⟨group, leaf, rfl⟩ := List.mem_map.mp member
  have found := (List.mem_filter.mp leaf).1
  have own := Forest.own_subset_of_mem_groups found
  have pairs : (group.statement path).declarations.pairs =
      group.inside.own.filterMap Line.declared? :=
    OpenGroup.pairs_takeAll _ (fun line inside => accepted.formed line (own inside))
      (accepted.regular group found).distinct fun _ _ => rfl
  obtain ⟨pair, held, rfl⟩ := List.mem_map.mp declared
  rw [pairs] at held
  obtain ⟨line, inside, given⟩ := List.mem_filterMap.mp held
  exact ⟨line, same ▸ own inside, accepted.formed line (own inside), pair.2, given⟩

theorem isName_of_read (h : read path text = .ok document) :
    ∀ statement ∈ document.statements, ∀ name ∈ statement.declarations.keys,
      isName name.toList = true := by
  intro statement member name declared
  obtain ⟨line, -, -, declaration, given⟩ := exists_line_of_read h statement member name declared
  exact Line.isName_of_declared? given

theorem ne_reservedName_of_read (h : read path text = .ok document) :
    ∀ statement ∈ document.statements, ∀ name ∈ statement.declarations.keys,
      name ≠ Reader.reservedName := by
  intro statement member name declared
  obtain ⟨line, -, formed, declaration, given⟩ :=
    exists_line_of_read h statement member name declared
  exact Line.ne_reservedName_of_declared? formed given

end Document

theorem statements_account_for_text (path : Path) (text : String) (document : Document)
    (h : Document.read path text = .ok document) : document.AccountsFor path text := by
  obtain ⟨forest, same, formed, plain, regular, statements⟩ := Document.exists_forest_of_read h
  have each : ∀ group ∈ (forest.groups [] 1).filter Group.isLeaf,
      (group.statement path).StandsFor path group := by
    intro group member
    obtain ⟨found, leaf⟩ := List.mem_filter.mp member
    have own := Forest.own_subset_of_mem_groups found
    refine Group.standsFor_statement path (regular group found) leaf
      (fun line inside => formed line (own inside)) fun line inside => ?_
    have inText := own inside
    rw [same] at inText
    exact Document.sound_of_mem_linesOf inText
  constructor
  · refine ⟨forest, same, fun other made => ?_, fun group found => ?_, ?_⟩
    · exact Forest.lines_injective (made.trans same.symm)
    · rw [← same]
      exact Forest.opensIn_of_mem_groups found
    · rw [statements, Forest.statements, List.forall₂_map_left_iff, List.forall₂_same]
      exact each
  · simp only [statements, Forest.statements, List.map_map, Function.comp_def,
      Group.line_statement, List.pairwise_map]
    exact (forest.pairwise_number_groups [] 1).filter _
  · rw [statements, Forest.statements, List.flatMap_map, ← Document.filterMap_query?_linesOf,
      ← same, Forest.filterMap_query?_lines plain regular]
    exact List.flatMap_congr fun group member => (each group member).query

def nestedText : String :=
  "-- #\x7b players\n-- # \x7b get\n-- # * Fetch one.\n-- # :name string\n-- aside\n SELECT 1 \n"
    ++ "-- kept\n\n;\r\n\n-- # \x7d\n\n-- # \x7b drop\nDELETE\n-- # \x7d\n-- #\x7d"

def nestedDocument : Document where
  path := ⟨"q.sql"⟩
  dialect := none
  statements :=
    [⟨"players.get", " SELECT 1\n-- kept\n\n;",
      .ofList [("name", ⟨.string, false, false, false, none⟩)], "Fetch one.", ⟨"q.sql"⟩, 2⟩,
    ⟨"players.drop", "DELETE", .empty, "", ⟨"q.sql"⟩, 13⟩]

theorem statements_of_nestedText :
    Document.read ⟨"q.sql"⟩ nestedText = .ok nestedDocument ∧
      nestedDocument.AccountsFor ⟨"q.sql"⟩ nestedText := by
  have read : Document.read ⟨"q.sql"⟩ nestedText = .ok nestedDocument := by decide +kernel
  exact ⟨read, statements_account_for_text _ _ _ read⟩

end QueryContract
