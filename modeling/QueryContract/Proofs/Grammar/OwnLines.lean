import QueryContract.Proofs.Grammar.Forest

/-!
The lines that a group has as its own. What they leave in the group depends on nothing else, and
whether the group takes them can be told from all of them at once.
-/

namespace QueryContract

def Line.isQuery : Line → Bool
  | .query _ => true
  | _ => false

def Line.isHeader : Line → Bool
  | .directive (.description _) | .directive (.variable _) => true
  | _ => false

def Line.isContent (line : Line) : Bool := line.isQuery || line.isHeader

def Line.variableName? : Line → Option String
  | .directive (.variable argument) =>
    (VariableLine.split? argument).map fun parts => String.ofList parts.name
  | _ => none

def variableNames (own : List Line) : List String := own.filterMap Line.variableName?

namespace OpenGroup

def takeAll (group : OpenGroup) (own : List Line) : OpenGroup := own.foldl take group

def after (group : OpenGroup) (forest : Forest) : OpenGroup :=
  { group.takeAll forest.own with isParent := group.isParent || forest.hasGroup }

/-- A line changes what a group holds and nothing else about it. -/
theorem take_eq (group : OpenGroup) (line : Line) : ∃ doc declarations query,
    group.take line = { group with doc, declarations, query } := by
  unfold take
  repeat' split
  all_goals exact ⟨_, _, _, rfl⟩

theorem name_take (group : OpenGroup) (line : Line) : (group.take line).name = group.name := by
  obtain ⟨doc, declarations, query, same⟩ := group.take_eq line
  rw [same]

theorem line_take (group : OpenGroup) (line : Line) : (group.take line).line = group.line := by
  obtain ⟨doc, declarations, query, same⟩ := group.take_eq line
  rw [same]

theorem isParent_take (group : OpenGroup) (line : Line) :
    (group.take line).isParent = group.isParent := by
  obtain ⟨doc, declarations, query, same⟩ := group.take_eq line
  rw [same]

theorem take_asParent (group : OpenGroup) (line : Line) :
    group.asParent.take line = (group.take line).asParent := by
  have same : group.asParent.hasQuery = group.hasQuery := rfl
  unfold take
  rw [same]
  repeat' split
  all_goals rfl

theorem takeAll_asParent (group : OpenGroup) (own : List Line) :
    group.asParent.takeAll own = (group.takeAll own).asParent := by
  induction own generalizing group with
  | nil => rfl
  | cons line rest ih =>
    rw [takeAll, List.foldl_cons, take_asParent]
    exact ih (group.take line)

theorem name_takeAll (group : OpenGroup) (own : List Line) :
    (group.takeAll own).name = group.name := by
  induction own generalizing group with
  | nil => rfl
  | cons line rest ih =>
    rw [takeAll, List.foldl_cons, ← name_take group line]
    exact ih (group.take line)

theorem after_nil (group : OpenGroup) : group.after .nil = group := by
  simp [after, takeAll, Forest.own, Forest.hasGroup]

theorem after_line (group : OpenGroup) {line : Line} (plain : line.isBracket = false)
    (rest : Forest) : group.after (.line line plain rest) = (group.take line).after rest := by
  simp [after, takeAll, Forest.own, Forest.hasGroup, isParent_take]

theorem after_group (group : OpenGroup) (name ending : List Char) (inside rest : Forest) :
    group.after (.group name inside ending rest) = group.asParent.after rest := by
  rw [after, after, takeAll_asParent]
  simp [asParent, Forest.own, Forest.hasGroup]

theorem hasQuery_take (group : OpenGroup) (line : Line) :
    (group.take line).hasQuery = (group.hasQuery || line.isQuery) := by
  cases line with
  | query text => simp [take, hasQuery, Line.isQuery]
  | comment text =>
    rw [take]
    cases query : group.hasQuery <;> simp [query, Line.isQuery]
    simp [hasQuery]
  | directive directive =>
    have kept : (group.take (.directive directive)).query = group.query := by
      cases directive with
      | «variable» argument =>
        simp only [take]
        split
        · rfl
        · split <;> rfl
      | _ => rfl
    rw [hasQuery, kept]
    exact (Bool.or_false _).symm

theorem variable_take (group : OpenGroup) {argument : List Char}
    (formed : Line.WellFormed (.directive (.variable argument))) :
    ∃ name declaration, Line.variableName? (.directive (.variable argument)) = some name ∧
      group.take (.directive (.variable argument)) =
        { group with declarations := group.declarations.put name declaration } := by
  obtain ⟨parts, declaration, split, -, declared⟩ := formed
  refine ⟨String.ofList parts.name, declaration, by simp [Line.variableName?, split], ?_⟩
  simp only [take, split, declared]

theorem isEmpty_put (name : String) (declaration : Declaration)
    (declarations : Association String Declaration) :
    (declarations.put name declaration).isEmpty = false := by
  obtain ⟨pairs, distinct⟩ := declarations
  cases pairs with
  | nil => rfl
  | cons pair rest =>
    simp only [Association.isEmpty, Association.put, Association.putPair]
    split <;> rfl

theorem hasPreface_take (group : OpenGroup) {line : Line} (formed : line.WellFormed) :
    (group.take line).hasPreface = (group.hasPreface || line.isHeader) := by
  cases line with
  | query text => simp [take, hasPreface, Line.isHeader]
  | comment text =>
    rw [take]
    split <;> simp [hasPreface, Line.isHeader]
  | directive directive =>
    cases directive with
    | description argument => simp [take, hasPreface, Line.isHeader]
    | «variable» argument =>
      obtain ⟨name, declaration, -, taken⟩ := variable_take group formed
      simp [taken, hasPreface, isEmpty_put, Line.isHeader]
    | _ => simp [take, Line.isHeader]

theorem contains_take (group : OpenGroup) {line : Line} (formed : line.WellFormed) (name : String) :
    (group.take line).declarations.contains name =
      (group.declarations.contains name || line.variableName? == some name) := by
  cases line with
  | query text => simp [take, Line.variableName?]
  | comment text =>
    rw [take]
    split <;> simp [Line.variableName?]
  | directive directive =>
    cases directive with
    | «variable» argument =>
      obtain ⟨known, declaration, named, taken⟩ := variable_take group formed
      rw [taken, named, Association.contains, Association.get?_put]
      by_cases same : name = known
      · simp [same]
      · simp [same, Ne.symm same, Association.contains]
    | _ => simp [take, Line.variableName?]

theorem hasQuery_takeAll (group : OpenGroup) (own : List Line) :
    (group.takeAll own).hasQuery = (group.hasQuery || own.any Line.isQuery) := by
  induction own generalizing group with
  | nil => simp [takeAll]
  | cons line rest ih =>
    rw [takeAll, List.foldl_cons, List.any_cons, ← Bool.or_assoc, ← hasQuery_take]
    exact ih (group.take line)

end OpenGroup

/-- What lines of its own a group takes, given what it already holds and whether groups are among
    what it still gets. -/
structure Takes (query preface parent : Bool) (known : String → Bool) (own : List Line)
    (branch : Bool) : Prop where
  branching : branch = true →
    query = false ∧ preface = false ∧ ∀ line ∈ own, line.isContent = false
  inParent : parent = true → ∀ line ∈ own, line.isContent = false
  afterQuery : query = true → ∀ line ∈ own, line.isHeader = false
  ordered : own.Pairwise fun earlier later => earlier.isQuery = true → later.isHeader = false
  distinct : (variableNames own).Nodup
  fresh : ∀ name ∈ variableNames own, known name = false

structure TakesLine (query parent : Bool) (known : String → Bool) (line : Line) : Prop where
  asQuery : line.isQuery = true → parent = false
  asHeader : line.isHeader = true → query = false ∧ parent = false
  fresh : ∀ name, line.variableName? = some name → known name = false

theorem Line.isContent_eq_false_iff (line : Line) :
    line.isContent = false ↔ line.isQuery = false ∧ line.isHeader = false :=
  Bool.or_eq_false_iff

theorem variableNames_cons (line : Line) (rest : List Line) :
    variableNames (line :: rest) = line.variableName?.toList ++ variableNames rest := by
  rw [variableNames, List.filterMap_cons]
  cases line.variableName? <;> rfl

section Takes

variable {query preface parent branch : Bool} {known : String → Bool} {line : Line}
  {rest : List Line}

theorem Takes.head (h : Takes query preface parent known (line :: rest) branch) :
    TakesLine query parent known line where
  asQuery isQuery := by
    cases parent with
    | false => rfl
    | true =>
      have plain := h.inParent rfl line List.mem_cons_self
      rw [Line.isContent_eq_false_iff, isQuery] at plain
      cases plain.1
  asHeader isHeader := by
    constructor
    · cases query with
      | false => rfl
      | true => exact absurd isHeader (by simp [h.afterQuery rfl line List.mem_cons_self])
    · cases parent with
      | false => rfl
      | true =>
        have plain := h.inParent rfl line List.mem_cons_self
        rw [Line.isContent_eq_false_iff, isHeader] at plain
        cases plain.2
  fresh name named := h.fresh name (by simp [variableNames_cons, named])

theorem Takes.tail (h : Takes query preface parent known (line :: rest) branch) :
    Takes (query || line.isQuery) (preface || line.isHeader) parent
      (fun name => known name || line.variableName? == some name) rest branch where
  branching isBranch := by
    obtain ⟨query, preface, plain⟩ := h.branching isBranch
    obtain ⟨first, later⟩ := List.forall_mem_cons.mp plain
    rw [Line.isContent_eq_false_iff] at first
    exact ⟨by simp [query, first], by simp [preface, first], later⟩
  inParent isParent := (List.forall_mem_cons.mp (h.inParent isParent)).2
  afterQuery hasQuery := by
    rcases Bool.or_eq_true_iff.mp hasQuery with before | now
    · exact (List.forall_mem_cons.mp (h.afterQuery before)).2
    · exact fun later member => (List.pairwise_cons.mp h.ordered).1 later member now
  ordered := (List.pairwise_cons.mp h.ordered).2
  distinct := by
    have distinct := h.distinct
    rw [variableNames_cons] at distinct
    exact (List.nodup_append.mp distinct).2.1
  fresh name member := by
    have distinct := h.distinct
    rw [variableNames_cons] at distinct
    have unknown := h.fresh name (by simp [variableNames_cons, member])
    have other : line.variableName? ≠ some name := fun named =>
      (List.nodup_append.mp distinct).2.2 name (by simp [named]) name member rfl
    simp [unknown, other]

theorem Takes.cons (first : TakesLine query parent known line)
    (h : Takes (query || line.isQuery) (preface || line.isHeader) parent
      (fun name => known name || line.variableName? == some name) rest branch) :
    Takes query preface parent known (line :: rest) branch where
  branching isBranch := by
    obtain ⟨noQuery, noPreface, plain⟩ := h.branching isBranch
    rw [Bool.or_eq_false_iff] at noQuery noPreface
    have plainLine := (Line.isContent_eq_false_iff line).mpr ⟨noQuery.2, noPreface.2⟩
    exact ⟨noQuery.1, noPreface.1, List.forall_mem_cons.mpr ⟨plainLine, plain⟩⟩
  inParent isParent := by
    have noQuery : line.isQuery = false := Bool.eq_false_iff.mpr fun isQuery =>
      Bool.false_ne_true ((first.asQuery isQuery).symm.trans isParent)
    have noHeader : line.isHeader = false := Bool.eq_false_iff.mpr fun isHeader =>
      Bool.false_ne_true ((first.asHeader isHeader).2.symm.trans isParent)
    have plainLine := (Line.isContent_eq_false_iff line).mpr ⟨noQuery, noHeader⟩
    exact List.forall_mem_cons.mpr ⟨plainLine, h.inParent isParent⟩
  afterQuery hasQuery := by
    have noHeader : line.isHeader = false := Bool.eq_false_iff.mpr fun isHeader =>
      Bool.false_ne_true ((first.asHeader isHeader).1.symm.trans hasQuery)
    exact List.forall_mem_cons.mpr ⟨noHeader, h.afterQuery (by simp [hasQuery])⟩
  ordered := List.pairwise_cons.mpr
    ⟨fun later member isQuery => h.afterQuery (by simp [isQuery]) later member, h.ordered⟩
  distinct := by
    rw [variableNames_cons]
    refine List.nodup_append.mpr ⟨by cases line.variableName? <;> simp, h.distinct, ?_⟩
    intro name named other member same
    have fresh := h.fresh other member
    rw [Bool.or_eq_false_iff] at fresh
    rw [Option.mem_toList, same] at named
    simp [named] at fresh
  fresh name member := by
    rw [variableNames_cons, List.mem_append, Option.mem_toList] at member
    rcases member with named | member
    · exact first.fresh name named
    · exact (Bool.or_eq_false_iff.mp (h.fresh name member)).1

theorem takes_cons_iff : Takes query preface parent known (line :: rest) branch ↔
    TakesLine query parent known line ∧
      Takes (query || line.isQuery) (preface || line.isHeader) parent
        (fun name => known name || line.variableName? == some name) rest branch :=
  ⟨fun h => ⟨h.head, h.tail⟩, fun h => .cons h.1 h.2⟩

/-- A group among the lines counts for all of them, wherever it stands. -/
theorem takes_branch_iff (own : List Line) : Takes query preface parent known own true ↔
    (query = false ∧ preface = false) ∧ Takes query preface true known own branch := by
  constructor
  · intro h
    obtain ⟨noQuery, noPreface, plain⟩ := h.branching rfl
    exact ⟨⟨noQuery, noPreface⟩, fun _ => ⟨noQuery, noPreface, plain⟩, fun _ => plain,
      h.afterQuery, h.ordered, h.distinct, h.fresh⟩
  · rintro ⟨⟨noQuery, noPreface⟩, h⟩
    exact ⟨fun _ => ⟨noQuery, noPreface, h.inParent rfl⟩, fun _ => h.inParent rfl, h.afterQuery,
      h.ordered, h.distinct, h.fresh⟩

end Takes

end QueryContract
