import QueryContract.Proofs.Grammar.Contents
import QueryContract.Proofs.Grammar.FaultLines
import QueryContract.Proofs.Grammar.TakenNames

/-!
What holds of the open groups and of the statements after every line. The main statement is about
any lines that are read without a fault, and about the fault that the next line or the end may have.
-/

namespace QueryContract

namespace OpenGroup

structure Consistent (group : OpenGroup) : Prop where
  parent : group.isParent = true → group.hasQuery = false ∧ group.hasPreface = false
  begun : ∀ first ∈ group.query.head?, Text.isQueryText first.toList = true
  named : ∀ name ∈ group.declarations.keys, Text.isName name.toList = true
  distinct : group.declarations.keys.Nodup

variable {group : OpenGroup}

theorem consistent_opened (name : String) (line : Nat) : (opened name line).Consistent where
  parent := nofun
  begun := nofun
  named := nofun
  distinct := List.nodup_nil

theorem Consistent.asParent (h : group.Consistent) (query : group.hasQuery = false)
    (preface : group.hasPreface = false) : group.asParent.Consistent where
  parent _ := ⟨query, preface⟩
  begun := h.begun
  named := h.named
  distinct := h.distinct

theorem head?_query_take (h : group.Consistent) {line : Line}
    (text : ∀ text ∈ line.body?, Text.isQueryText text = line.isQuery) :
    ∀ first ∈ (group.take line).query.head?, Text.isQueryText first.toList = true := by
  intro first member
  rw [query_take] at member
  cases begun : group.query with
  | cons head rest =>
    have kept : first = head := by simpa [hasQuery, begun] using member.symm
    rw [kept]
    exact h.begun head (by rw [begun]; rfl)
  | nil =>
    cases query : line.isQuery with
    | false => simp [hasQuery, begun, query] at member
    | true =>
      cases body : line.body? with
      | none => simp [hasQuery, begun, query, body] at member
      | some added =>
        have new : first = String.ofList added := by
          simpa [hasQuery, begun, query, body] using member.symm
        rw [new, String.toList_ofList, text added body, query]

theorem Consistent.take (h : group.Consistent) {line : Line} (formed : line.WellFormed)
    (takes : TakesLine group.hasQuery group.isParent group.declarations.contains line)
    (text : ∀ text ∈ line.body?, Text.isQueryText text = line.isQuery) :
    (group.take line).Consistent where
  parent parent := by
    rw [isParent_take] at parent
    obtain ⟨query, preface⟩ := h.parent parent
    -- A parent takes neither query lines nor header lines.
    have noQuery : line.isQuery = false := Bool.eq_false_iff.mpr fun asQuery => by
      rw [takes.asQuery asQuery] at parent
      cases parent
    have noHeader : line.isHeader = false := Bool.eq_false_iff.mpr fun asHeader => by
      rw [(takes.asHeader asHeader).2] at parent
      cases parent
    rw [hasQuery_take, hasPreface_take group formed, query, preface, noQuery, noHeader]
    exact ⟨rfl, rfl⟩
  begun := head?_query_take h text
  named name member := by
    have fresh : ∀ pair ∈ line.declared?, group.declarations.contains pair.1 = false :=
      fun pair declared => takes.fresh pair.1 (by
        rw [← Line.map_fst_declared? formed, Option.mem_def.mp declared]
        rfl)
    rw [Association.keys, pairs_take group line fresh, List.map_append, List.mem_append] at member
    rcases member with known | new
    · exact h.named name known
    · obtain ⟨pair, declared, rfl⟩ := List.mem_map.mp new
      exact Line.isName_of_declared? (Option.mem_toList.mp declared)
  distinct := (group.take line).declarations.distinct

end OpenGroup

/-- The line of that number opens a group. -/
def OpensAt (lines : List Line) (number : Nat) : Prop :=
  ∃ before name after, lines = before ++ .directive (.opening name) :: after ∧
    number = before.length + 1

namespace OpensAt

variable {lines : List Line} {number : Nat}

theorem bounds (h : OpensAt lines number) : 1 ≤ number ∧ number ≤ lines.length := by
  obtain ⟨before, name, after, rfl, rfl⟩ := h
  rw [List.length_append, List.length_cons]
  omega

theorem append (h : OpensAt lines number) (more : List Line) : OpensAt (lines ++ more) number := by
  obtain ⟨before, name, after, rfl, place⟩ := h
  exact ⟨before, name, after ++ more, by rw [List.append_assoc, List.cons_append], place⟩

theorem concat (lines : List Line) (name : List Char) :
    OpensAt (lines ++ [.directive (.opening name)]) (lines.length + 1) :=
  ⟨lines, name, [], rfl, rfl⟩

end OpensAt

namespace Reader

def lineNumbers (reader : Reader) : List Nat :=
  reader.groups.map OpenGroup.line ++ reader.statements.map Statement.line

structure WellStacked (lines : List Line) (reader : Reader) : Prop where
  consistent : ∀ group ∈ reader.groups, group.Consistent
  /-- Every group but the innermost holds another group. -/
  around : ∀ group ∈ reader.groups.tail, group.isParent = true
  nested : (reader.groups.map OpenGroup.line).Pairwise (· > ·)
  latest : ∀ group ∈ reader.groups.head?, group.isParent = false →
    ∀ statement ∈ reader.statements, statement.line < group.line
  distinct : (reader.statements.map Statement.name).Nodup
  opened : ∀ number ∈ reader.lineNumbers, OpensAt lines number

section Innermost

variable {edit : OpenGroup → OpenGroup} {groups : List OpenGroup}

theorem tail_onInnermost : (onInnermost edit groups).tail = groups.tail := by
  cases groups <;> rfl

theorem map_line_onInnermost (kept : ∀ group, (edit group).line = group.line) :
    (onInnermost edit groups).map OpenGroup.line = groups.map OpenGroup.line := by
  cases groups with
  | nil => rfl
  | cons group outer => rw [onInnermost, List.map_cons, kept, List.map_cons]

theorem forall_head?_onInnermost {p : OpenGroup → Prop}
    (h : ∀ group ∈ groups.head?, p (edit group)) :
    ∀ group ∈ (onInnermost edit groups).head?, p group := by
  cases groups with
  | nil => nofun
  | cons first outer =>
    rintro group ⟨⟩
    exact h first rfl

theorem forall_mem_onInnermost {p : OpenGroup → Prop}
    (first : ∀ group ∈ groups.head?, p (edit group)) (rest : ∀ group ∈ groups.tail, p group) :
    ∀ group ∈ onInnermost edit groups, p group := by
  cases groups with
  | nil => nofun
  | cons group outer => exact List.forall_mem_cons.mpr ⟨first group rfl, rest⟩

end Innermost

/-- A closing line records at most the innermost group, and that under a new name. -/
theorem statementsAfter_of_closing (path : Path) {groups : List OpenGroup}
    {statements : List Statement} {argument : List Char}
    (fits : Fits groups statements (.directive (.closing argument))) :
    statementsAfter path groups statements (.directive (.closing argument)) = statements ∨
      ∃ group ∈ groups.head?,
        (∀ statement ∈ statements, statement.name ≠ qualifiedName groups) ∧
          statementsAfter path groups statements (.directive (.closing argument)) =
            statements ++ [statementOf path (qualifiedName groups) group] := by
  cases groups with
  | nil => exact .inl rfl
  | cons group outer =>
    cases parent : group.isParent with
    | true => exact .inl (by simp [statementsAfter, parent])
    | false =>
      rcases fits with isParent | ⟨-, fresh⟩
      · rw [parent] at isParent
        cases isParent
      · exact .inr ⟨group, rfl, fresh, by simp [statementsAfter, parent]⟩

namespace WellStacked

variable {path : Path} {reader next : Reader} {lines : List Line} {line : Line}

theorem start : Reader.start.WellStacked [] where
  consistent := nofun
  around := nofun
  nested := .nil
  latest := nofun
  distinct := .nil
  opened := nofun

theorem group_line (h : reader.WellStacked lines) {group : OpenGroup}
    (member : group ∈ reader.groups) : OpensAt lines group.line :=
  h.opened _ (List.mem_append_left _ (List.mem_map_of_mem member))

theorem statement_line (h : reader.WellStacked lines) {statement : Statement}
    (member : statement ∈ reader.statements) : OpensAt lines statement.line :=
  h.opened _ (List.mem_append_right _ (List.mem_map_of_mem member))

theorem advance_opening (h : reader.WellStacked lines) {name : List Char}
    (fits : Fits reader.groups reader.statements (.directive (.opening name))) :
    (reader.advance path (lines.length + 1) (.directive (.opening name))).WellStacked
      (lines ++ [.directive (.opening name)]) := by
  have sameLines : (onInnermost .asParent reader.groups).map OpenGroup.line =
      reader.groups.map OpenGroup.line := map_line_onInnermost fun _ => rfl
  have free : ∀ group ∈ reader.groups.head?, group.hasQuery = false ∧ group.hasPreface = false := by
    intro group first
    obtain ⟨outer, groups⟩ := List.head?_eq_some_iff.mp first
    rw [groups] at fits
    exact fits
  constructor
  case consistent =>
    refine List.forall_mem_cons.mpr ⟨OpenGroup.consistent_opened _ _, forall_mem_onInnermost ?_ ?_⟩
    · intro group first
      obtain ⟨query, preface⟩ := free group first
      exact (h.consistent group (List.mem_of_mem_head? first)).asParent query preface
    · exact fun group member => h.consistent group (List.mem_of_mem_tail member)
  case around => exact forall_mem_onInnermost (fun _ _ => rfl) h.around
  case nested =>
    rw [groups_advance_opening, List.map_cons, sameLines]
    refine List.pairwise_cons.mpr ⟨fun number member => ?_, h.nested⟩
    exact Nat.lt_succ_of_le (h.opened number (List.mem_append_left _ member)).bounds.2
  case latest =>
    rintro group ⟨⟩ - statement member
    exact Nat.lt_succ_of_le (h.statement_line member).bounds.2
  case distinct => exact h.distinct
  case opened =>
    rw [lineNumbers, groups_advance_opening, List.map_cons, sameLines]
    refine List.forall_mem_cons.mpr ⟨OpensAt.concat lines name, fun number member => ?_⟩
    exact (h.opened number member).append _

/-- A group that is closed leaves only groups that hold others, so nothing is asked of the new
    innermost one. -/
theorem advance_closing (h : reader.WellStacked lines) {argument : List Char}
    (fits : Fits reader.groups reader.statements (.directive (.closing argument))) :
    (reader.advance path (lines.length + 1) (.directive (.closing argument))).WellStacked
      (lines ++ [.directive (.closing argument)]) := by
  have recorded := statementsAfter_of_closing path fits
  obtain ⟨dialect, past, groups, statements⟩ := reader
  cases groups with
  | nil => cases fits
  | cons group outer =>
    have inner : ∀ other ∈ outer, other.isParent = true := h.around
    constructor
    case consistent => exact fun other member => h.consistent other (List.mem_cons_of_mem _ member)
    case around => exact fun other member => inner other (List.mem_of_mem_tail member)
    case nested => exact (List.pairwise_cons.mp h.nested).2
    case latest =>
      intro other first parent
      rw [inner other (List.mem_of_mem_head? first)] at parent
      cases parent
    case distinct =>
      rw [advance]
      rcases recorded with same | ⟨first, ⟨⟩, fresh, added⟩
      · rw [same]
        exact h.distinct
      · rw [added, List.map_append]
        refine h.distinct.append (List.nodup_singleton _) fun name known new => ?_
        obtain ⟨statement, member, rfl⟩ := List.mem_map.mp known
        exact fresh statement member (List.mem_singleton.mp new)
    case opened =>
      intro number member
      refine (h.opened number ?_).append _
      rcases List.mem_append.mp member with outside | inside
      · exact List.mem_append_left _ (List.mem_cons_of_mem _ outside)
      · rw [advance] at inside
        rcases recorded with same | ⟨first, ⟨⟩, fresh, added⟩
        · rw [same] at inside
          exact List.mem_append_right _ inside
        · rw [added, List.map_append] at inside
          rcases List.mem_append.mp inside with known | new
          · exact List.mem_append_right _ known
          · rw [List.mem_singleton.mp new]
            exact List.mem_append_left _ List.mem_cons_self

theorem advance_of_plain (h : reader.WellStacked lines) (plain : line.isBracket = false)
    (formed : line.WellFormed) (fits : Fits reader.groups reader.statements line)
    (text : ∀ text ∈ line.body?, Text.isQueryText text = line.isQuery) :
    (reader.advance path (lines.length + 1) line).WellStacked (lines ++ [line]) := by
  have groups : (reader.advance path (lines.length + 1) line).groups =
      onInnermost (·.take line) reader.groups := groups_advance_of_plain plain
  have statements : (reader.advance path (lines.length + 1) line).statements =
      reader.statements := statements_advance_of_plain plain
  have sameLines : (onInnermost (·.take line) reader.groups).map OpenGroup.line =
      reader.groups.map OpenGroup.line := map_line_onInnermost fun group => group.line_take line
  constructor
  case consistent =>
    rw [groups]
    refine forall_mem_onInnermost (fun group first => ?_) fun group member =>
      h.consistent group (List.mem_of_mem_tail member)
    obtain ⟨outer, stack⟩ := List.head?_eq_some_iff.mp first
    rw [stack, fits_of_plain_iff plain formed] at fits
    exact (h.consistent group (List.mem_of_mem_head? first)).take formed fits text
  case around =>
    rw [groups, tail_onInnermost]
    exact h.around
  case nested =>
    rw [groups, sameLines]
    exact h.nested
  case latest =>
    rw [groups, statements]
    refine forall_head?_onInnermost fun group first => ?_
    rw [group.isParent_take, group.line_take]
    exact h.latest group first
  case distinct =>
    rw [statements]
    exact h.distinct
  case opened =>
    rw [lineNumbers, groups, statements, sameLines]
    exact fun number member => (h.opened number member).append _

theorem readLine (h : reader.WellStacked lines) {row : List Char}
    (read : reader.readLine path (lines.length + 1) (Line.ofText row) = .ok next) :
    next.WellStacked (lines ++ [Line.ofText row]) := by
  obtain ⟨formed, -, fits, rfl⟩ := readLine_eq_ok_iff.mp read
  have text : ∀ text ∈ (Line.ofText row).body?,
      Text.isQueryText text = (Line.ofText row).isQuery :=
    fun _ => Line.isQueryText_of_mem_body?_ofText
  revert formed fits text
  generalize Line.ofText row = line
  intro formed fits text
  cases bracket : line.isBracket with
  | false => exact h.advance_of_plain bracket formed fits text
  | true =>
    unfold Line.isBracket at bracket
    cases line with
    | comment text => cases bracket
    | query text => cases bracket
    | directive directive =>
      cases directive with
      | opening name => exact h.advance_opening fits
      | closing argument => exact h.advance_closing fits
      | _ => cases bracket

/-- Every run over rows keeps what holds at its start. -/
theorem of_readLines (rows : List (List Char))
    (read : readLines path Reader.start 1 (rows.map Line.ofText) = .ok next) :
    next.WellStacked (rows.map Line.ofText) := by
  induction rows using List.reverseRecOn generalizing next with
  | nil =>
    cases read
    exact start
  | append_singleton before row ih =>
    rw [List.map_append, readLines_append] at read
    cases earlier : readLines path Reader.start 1 (before.map Line.ofText) with
    | error fault =>
      rw [earlier] at read
      cases read
    | ok middle =>
      rw [earlier, Nat.add_comm] at read
      rw [List.map_append]
      exact (ih earlier).readLine ((readLines_singleton ..).symm.trans read)

theorem opensAt_of_places (h : reader.WellStacked lines) {number : Nat} {fault : ReadFault}
    (places : reader.Places number fault) :
    fault.fault.isOfGroup = false ∧ fault.line = number ∨
      (∃ name, fault.fault = .duplicateStatement name) ∧ OpensAt lines fault.line := by
  rcases places with ordinary | ⟨duplicate, group, member, place⟩
  · exact .inl ordinary
  · rw [place]
    exact .inr ⟨duplicate, h.group_line member⟩

theorem opensAt_of_finish (h : reader.WellStacked lines) {fault : ReadFault}
    (failed : reader.finish path = .error fault) :
    (∃ name, fault.fault = .unclosedGroup name) ∧ OpensAt lines fault.line := by
  unfold finish at failed
  split at failed
  · cases failed
  · rename_i group outer groups
    cases failed
    exact ⟨⟨_, rfl⟩, h.group_line (by rw [groups]; exact List.mem_cons_self)⟩

end WellStacked

end Reader

/-- After any lines that are read without a fault, the open groups and the statements are in order
    and the names that are taken are those of the statements. A fault is then found on the next
    line, or it lies with a group and is reported for the line that opened the group. -/
theorem readers_stay_wellStacked (path : Path) (rows : List (List Char)) :
    (∀ fault, NameKeeper.readLines path .start 1 (rows.map Line.ofText) = .error fault ↔
        Reader.readLines path .start 1 (rows.map Line.ofText) = .error fault) ∧
      ∀ keeper, NameKeeper.readLines path .start 1 (rows.map Line.ofText) = .ok keeper →
        Reader.readLines path .start 1 (rows.map Line.ofText) = .ok keeper.reader ∧
        (∀ name, name ∈ keeper.taken ↔
          ∃ statement ∈ keeper.reader.statements, statement.name = name) ∧
        keeper.reader.WellStacked (rows.map Line.ofText) ∧
        (∀ number ∈ keeper.reader.lineNumbers, 1 ≤ number ∧ number ≤ rows.length) ∧
        (∀ row fault, keeper.readLine path (rows.length + 1) (Line.ofText row) = .error fault →
          fault.fault.isOfGroup = false ∧ fault.line = rows.length + 1 ∨
            (∃ name, fault.fault = .duplicateStatement name) ∧
              OpensAt (rows.map Line.ofText) fault.line) ∧
        ∀ fault, keeper.reader.finish path = .error fault →
          (∃ name, fault.fault = .unclosedGroup name) ∧
            OpensAt (rows.map Line.ofText) fault.line := by
  rw [NameKeeper.start_eq_withTaken, NameKeeper.readLines_withTaken]
  cases read : Reader.readLines path .start 1 (rows.map Line.ofText) with
  | error fault => exact ⟨fun other => by simp [Except.map], nofun⟩
  | ok reader =>
    have stacked : reader.WellStacked (rows.map Line.ofText) := .of_readLines rows read
    refine ⟨fun _ => ⟨nofun, nofun⟩, ?_⟩
    rintro keeper ⟨⟩
    refine ⟨rfl, fun name => NameKeeper.mem_taken_withTaken, stacked, fun number member => ?_,
      fun row fault failed => ?_, fun fault failed => stacked.opensAt_of_finish failed⟩
    · rw [← List.length_map (f := Line.ofText)]
      exact (stacked.opened number member).bounds
    · rw [NameKeeper.readLine_withTaken] at failed
      cases next : reader.readLine path (rows.length + 1) (Line.ofText row) with
      | ok _ =>
        rw [next] at failed
        cases failed
      | error found =>
        rw [next] at failed
        cases failed
        exact stacked.opensAt_of_places (Reader.places_of_readLine next)

/-- Two statements of one group with the same name. The second is not closed yet. -/
def repeatedRows : List (List Char) :=
  ["-- #\x7b players".toList, "-- #\x7b find".toList, "-- # :id int".toList,
    "SELECT :id".toList, "-- #\x7d".toList, "-- #\x7b find".toList, "SELECT 2".toList]

def repeatedReader : Reader where
  dialect := none
  pastDirective := true
  groups :=
    [⟨"find", 6, [], .empty, ["SELECT 2"], false⟩, ⟨"players", 1, [], .empty, [], true⟩]
  statements :=
    [⟨"players.find", "SELECT :id", .put "id" ⟨.int, false, false, false, none⟩ .empty, "",
      ⟨"q.sql"⟩, 2⟩]

theorem wellStacked_of_repeatedRows :
    NameKeeper.readLines ⟨"q.sql"⟩ .start 1 (repeatedRows.map Line.ofText) =
        .ok ⟨repeatedReader, {"players.find"}⟩ ∧
      repeatedReader.WellStacked (repeatedRows.map Line.ofText) ∧
      NameKeeper.readLine ⟨repeatedReader, {"players.find"}⟩ ⟨"q.sql"⟩ 8
        (Line.ofText "-- #\x7d".toList) = .error ⟨6, .duplicateStatement "players.find"⟩ ∧
      OpensAt (repeatedRows.map Line.ofText) 6 := by
  have read : NameKeeper.readLines ⟨"q.sql"⟩ .start 1 (repeatedRows.map Line.ofText) =
      .ok ⟨repeatedReader, {"players.find"}⟩ := by decide +kernel
  have refused : NameKeeper.readLine ⟨repeatedReader, {"players.find"}⟩ ⟨"q.sql"⟩ 8
      (Line.ofText "-- #\x7d".toList) = .error ⟨6, .duplicateStatement "players.find"⟩ := by decide +kernel
  obtain ⟨-, -, stacked, -, next, -⟩ := (readers_stay_wellStacked _ _).2 _ read
  rcases next _ _ refused with ⟨ordinary, -⟩ | ⟨-, opens⟩
  · cases ordinary
  · exact ⟨read, stacked, refused, opens⟩

end QueryContract
