import QueryContract.Proofs.Grammar.Acceptance

/-!
What is read from a text, in terms of the forest that its lines make up: whether there is a document
at all, and which one it is.
-/

namespace QueryContract

namespace Reader

theorem dialect_run (path : Path) (reader : Reader) (number : Nat) (lines : List Line) :
    (reader.run path number lines).dialect = lines.foldl dialectAfter reader.dialect := by
  induction lines generalizing reader number with
  | nil => rfl
  | cons line rest ih =>
    rw [run, ih]
    rfl

end Reader

/-- The lines of the forest are those of a file that is read without a fault. -/
structure Forest.Accepted (forest : Forest) : Prop where
  formed : ∀ line ∈ forest.lines, line.WellFormed
  dialects : DialectFirst false forest.lines
  level : ∀ line ∈ forest.own, line.isContent = false
  regular : ∀ group ∈ forest.groups [] 1, group.Regular
  distinct : (forest.statementNames [] 1).Nodup

def Forest.document (path : Path) (forest : Forest) : Document where
  path := path
  dialect := forest.lines.foldl Reader.dialectAfter none
  statements := forest.statements path [] 1

theorem Forest.names_document (path : Path) (forest : Forest) :
    (forest.document path).statements.map Statement.name = forest.statementNames [] 1 :=
  forest.names_statements path [] 1

theorem Document.read_eq_ok_iff {path : Path} {text : String} {document : Document} :
    read path text = .ok document ↔
      ∃ forest : Forest, forest.lines = linesOf text ∧ forest.Accepted ∧
        forest.document path = document := by
  have finished (forest : Forest) :
      (Reader.start.run path 1 forest.lines).finish path = .ok (forest.document path) := by
    obtain ⟨closed, statements⟩ := Reader.passed_run path .start 1 forest
    have groups : (Reader.start.run path 1 forest.lines).groups = [] := closed
    rw [Reader.finish, groups, statements, Reader.dialect_run]
    rfl
  constructor
  · intro h
    obtain ⟨last, accepted, closed⟩ := (exists_read_iff path text).mp ⟨document, h⟩
    have found := h
    rw [read, accepted] at found
    obtain ⟨formed, dialects, fits, rfl⟩ := Reader.readLines_eq_ok_iff.mp accepted
    obtain ⟨forest, same⟩ := (Reader.balanced_of_fitsAll fits closed).exists_forest
    rw [← same] at formed dialects fits found ⊢
    obtain ⟨level, regular, distinct, -⟩ := (Reader.fitsAll_lines_iff path .start 1 formed).mp fits
    have ended := (finished forest).symm.trans found
    exact ⟨forest, rfl, ⟨formed, dialects, level, regular, distinct⟩, Except.ok.inj ended⟩
  · rintro ⟨forest, same, accepted, rfl⟩
    have fresh : Reader.Fresh Reader.start.statements (forest.statementNames [] 1) :=
      ⟨accepted.distinct, List.forall_mem_nil _⟩
    have fits := (Reader.fitsAll_lines_iff path .start 1 accepted.formed).mpr
      ⟨accepted.level, accepted.regular, fresh⟩
    have run := Reader.readLines_eq_ok_iff.mpr ⟨accepted.formed, accepted.dialects, fits, rfl⟩
    rw [read, ← same, run]
    exact finished forest

end QueryContract
