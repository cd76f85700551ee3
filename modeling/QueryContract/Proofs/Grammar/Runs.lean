import QueryContract.Proofs.Grammar.Steps

/-!
Runs over lines. A run is accepted when every line is well formed by itself, dialects come before
other directives, and each line fits the groups and statements that the lines before it left.
-/

namespace QueryContract

/-- No directive stands before a dialect. -/
def DialectFirst (pastDirective : Bool) (lines : List Line) : Prop :=
  ∀ before argument after, lines = before ++ .directive (.dialect argument) :: after →
    pastDirective = false ∧ ∀ line ∈ before, line.isDirective = false

theorem dialectFirst_cons_iff (pastDirective : Bool) (line : Line) (rest : List Line) :
    DialectFirst pastDirective (line :: rest) ↔
      line.InTime pastDirective ∧ DialectFirst (pastDirective || line.isDirective) rest := by
  constructor
  · intro h
    constructor
    · unfold Line.InTime
      split
      · exact (h [] _ rest rfl).1
      · trivial
    · intro before argument after split
      obtain ⟨past, plain⟩ := h (line :: before) argument after (by rw [split]; rfl)
      have first := plain line List.mem_cons_self
      exact ⟨by simp [past, first], fun other member => plain other (List.mem_cons_of_mem _ member)⟩
  · rintro ⟨inTime, h⟩ before argument after split
    cases before with
    | nil =>
      cases split
      exact ⟨inTime, by simp⟩
    | cons first others =>
      cases split
      obtain ⟨past, plain⟩ := h others argument after rfl
      rw [Bool.or_eq_false_iff] at past
      exact ⟨past.1, List.forall_mem_cons.mpr ⟨past.2, plain⟩⟩

namespace Reader

def run (path : Path) (reader : Reader) (number : Nat) : List Line → Reader
  | [] => reader
  | line :: rest => run path (reader.advance path number line) (number + 1) rest

def FitsAll (path : Path) (reader : Reader) (number : Nat) : List Line → Prop
  | [] => True
  | line :: rest =>
    Fits reader.groups reader.statements line ∧
      FitsAll path (reader.advance path number line) (number + 1) rest

theorem run_append (path : Path) (reader : Reader) (number : Nat) (earlier later : List Line) :
    reader.run path number (earlier ++ later) =
      (reader.run path number earlier).run path (number + earlier.length) later := by
  induction earlier generalizing reader number with
  | nil => rfl
  | cons line rest ih =>
    rw [List.cons_append, run, ih, run, List.length_cons, Nat.add_assoc, Nat.add_comm 1]

theorem fitsAll_append_iff (path : Path) (reader : Reader) (number : Nat)
    (earlier later : List Line) :
    reader.FitsAll path number (earlier ++ later) ↔
      reader.FitsAll path number earlier ∧
        (reader.run path number earlier).FitsAll path (number + earlier.length) later := by
  induction earlier generalizing reader number with
  | nil => simp [FitsAll, run]
  | cons line rest ih =>
    rw [List.cons_append, FitsAll, ih, FitsAll, run, List.length_cons, and_assoc, Nat.add_assoc,
      Nat.add_comm 1]

theorem readLines_eq_ok_iff {path : Path} {reader last : Reader} {number : Nat}
    {lines : List Line} :
    readLines path reader number lines = .ok last ↔
      (∀ line ∈ lines, line.WellFormed) ∧ DialectFirst reader.pastDirective lines ∧
        reader.FitsAll path number lines ∧ reader.run path number lines = last := by
  induction lines generalizing reader number with
  | nil => simp [readLines, DialectFirst, FitsAll, run]
  | cons line rest ih =>
    have step : readLines path reader number (line :: rest) = .ok last ↔
        ∃ next, reader.readLine path number line = .ok next ∧
          readLines path next (number + 1) rest = .ok last := by
      rw [readLines]
      cases reader.readLine path number line <;> simp
    rw [step, dialectFirst_cons_iff, FitsAll, run]
    simp only [readLine_eq_ok_iff, ih, List.forall_mem_cons]
    constructor
    · rintro ⟨next, ⟨formed, inTime, fits, rfl⟩, later, first, fitting, ended⟩
      exact ⟨⟨formed, later⟩, ⟨inTime, first⟩, ⟨fits, fitting⟩, ended⟩
    · rintro ⟨⟨formed, later⟩, ⟨inTime, first⟩, ⟨fits, fitting⟩, ended⟩
      exact ⟨_, ⟨formed, inTime, fits, rfl⟩, later, first, fitting, ended⟩

end Reader

end QueryContract
