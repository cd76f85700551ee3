import QueryContract.Proofs.Grammar.Acceptance

/-!
The lines that faults are reported for. A fault that is found on a line is reported for that line,
but for a duplicate name and for a group left open: these are reported for the line that opened the
group.
-/

namespace QueryContract

/-- Faults that belong to a group as a whole. -/
def LineFault.isOfGroup : LineFault → Bool
  | .duplicateStatement _ | .unclosedGroup _ => true
  | _ => false

namespace Reader

variable {path : Path} {reader : Reader} {number : Nat} {argument : List Char} {fault : LineFault}

theorem isOfGroup_of_readDialect (h : reader.readDialect argument = .error fault) :
    fault.isOfGroup = false := by
  unfold readDialect at h
  split at h
  · cases h
    rfl
  · split at h <;> cases h
    rfl

theorem isOfGroup_of_openGroup (h : reader.openGroup number argument = .error fault) :
    fault.isOfGroup = false := by
  unfold openGroup at h
  dsimp only at h
  split at h
  · cases h
    rfl
  · split at h
    · cases h
    · split at h
      · cases h
        rfl
      · split at h <;> cases h
        rfl

theorem isOfGroup_of_editHeader {what : String} {edit : OpenGroup → Except LineFault OpenGroup}
    (edits : ∀ group fault, edit group = .error fault → fault.isOfGroup = false)
    (h : reader.editHeader what edit = .error fault) : fault.isOfGroup = false := by
  unfold editHeader at h
  split at h
  · cases h
    rfl
  · split at h
    · cases h
      rfl
    · split at h
      · cases h
        rfl
      · split at h
        · cases h
        · rename_i refused
          cases h
          exact edits _ _ refused

theorem isOfGroup_of_addDescription (h : reader.addDescription argument = .error fault) :
    fault.isOfGroup = false := by
  refine isOfGroup_of_editHeader (fun group fault refused => ?_) h
  cases refused

theorem isOfGroup_of_addVariable (h : reader.addVariable argument = .error fault) :
    fault.isOfGroup = false := by
  unfold addVariable at h
  split at h
  · cases h
    rfl
  · dsimp only at h
    split at h
    · cases h
      rfl
    · split at h
      · cases h
        rfl
      · refine isOfGroup_of_editHeader (fun group fault refused => ?_) h
        split at refused <;> cases refused
        rfl

theorem isOfGroup_of_addQuery (h : reader.addQuery argument = .error fault) :
    fault.isOfGroup = false := by
  unfold addQuery at h
  split at h
  · cases h
    rfl
  · split at h <;> cases h
    rfl

/-- The fault is reported for the line at hand, or it is a duplicate name and reported for the line
    of an open group. -/
def Places (reader : Reader) (number : Nat) (fault : ReadFault) : Prop :=
  fault.fault.isOfGroup = false ∧ fault.line = number ∨
    (∃ name, fault.fault = .duplicateStatement name) ∧
      ∃ group ∈ reader.groups, fault.line = group.line

theorem places_of_atLine {result : Except LineFault Reader} {fault : ReadFault}
    (plain : ∀ fault, result = .error fault → fault.isOfGroup = false)
    (h : atLine number result = .error fault) : reader.Places number fault := by
  cases result with
  | ok next => cases h
  | error found =>
    cases h
    exact .inl ⟨plain found rfl, rfl⟩

theorem places_of_closeGroup {fault : ReadFault}
    (h : reader.closeGroup path number argument = .error fault) : reader.Places number fault := by
  unfold closeGroup at h
  split at h
  · cases h
    exact .inl ⟨rfl, rfl⟩
  · split at h
    · cases h
      exact .inl ⟨rfl, rfl⟩
    · rename_i group outer groups
      dsimp only at h
      split at h
      · cases h
      · split at h
        · cases h
          exact .inl ⟨rfl, rfl⟩
        · split at h <;> cases h
          exact .inr ⟨⟨_, rfl⟩, group, by rw [groups]; exact List.mem_cons_self, rfl⟩

theorem places_of_readDirective {directive : Directive} {fault : ReadFault}
    (h : reader.readDirective path number directive = .error fault) :
    reader.Places number fault := by
  cases directive with
  | bare => cases h
  | dialect argument => exact places_of_atLine (fun _ => isOfGroup_of_readDialect) h
  | opening argument => exact places_of_atLine (fun _ => isOfGroup_of_openGroup) h
  | closing argument => exact places_of_closeGroup h
  | description argument => exact places_of_atLine (fun _ => isOfGroup_of_addDescription) h
  | «variable» argument => exact places_of_atLine (fun _ => isOfGroup_of_addVariable) h
  | unknown body =>
    cases h
    exact .inl ⟨rfl, rfl⟩

theorem places_of_readLine {line : Line} {fault : ReadFault}
    (h : reader.readLine path number line = .error fault) : reader.Places number fault := by
  cases line with
  | comment text => cases h
  | query text => exact places_of_atLine (fun _ => isOfGroup_of_addQuery) h
  | directive directive =>
    rw [readLine] at h
    cases read : reader.readDirective path number directive with
    | ok next =>
      rw [read] at h
      cases h
    | error found =>
      rw [read] at h
      cases h
      exact places_of_readDirective read

/-- A run fails on one line, and the lines before it are accepted. -/
theorem exists_of_readLines_error {lines : List Line} {fault : ReadFault}
    (h : readLines path reader number lines = .error fault) :
    ∃ before line after last, lines = before ++ line :: after ∧
      readLines path reader number before = .ok last ∧
        last.readLine path (number + before.length) line = .error fault := by
  induction lines generalizing reader number with
  | nil => cases h
  | cons first rest ih =>
    rw [readLines] at h
    cases read : reader.readLine path number first with
    | error found =>
      rw [read] at h
      cases h
      exact ⟨[], first, rest, reader, rfl, rfl, read⟩
    | ok next =>
      rw [read] at h
      obtain ⟨before, line, after, last, rfl, accepted, refused⟩ := ih h
      refine ⟨first :: before, line, after, last, rfl, ?_, ?_⟩
      · rw [readLines, read]
        exact accepted
      · rw [List.length_cons, Nat.add_comm before.length, ← Nat.add_assoc]
        exact refused

end Reader

end QueryContract
