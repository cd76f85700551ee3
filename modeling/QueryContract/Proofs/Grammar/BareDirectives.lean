import QueryContract.Proofs.Grammar.Comments
import QueryContract.Proofs.Grammar.FaultLines

/-!
Directives without a marker. Outside of query text such a line is read as a comment in its place
would be, unless a dialect is the next directive: a dialect has to be the first directive of its
file, and a line without a marker counts as one.
-/

namespace QueryContract

theorem Line.ofText_bare {line : List Char} (h : Text.trim line = directiveMark) :
    ofText line = .directive .bare := by
  have marked : directiveMark <+: Text.trim line := h ▸ List.prefix_rfl
  obtain ⟨body, split, read⟩ := ofText_trim marked
  have none : body = [] := List.self_eq_append_right.mp (h.symm.trans split)
  rw [read, none]
  rfl

/-- A blank line or a comment that is no directive. -/
def Line.isRemark : Line → Bool
  | .comment _ => true
  | _ => false

/-- Nothing but remarks stands before the place and from there up to a dialect. -/
def DialectFollows (before after : List Line) : Prop :=
  ∃ remarks argument rest, after = remarks ++ .directive (.dialect argument) :: rest ∧
    ∀ line ∈ before ++ remarks, line.isRemark = true

namespace Reader

/-- The reader after a line without a marker. -/
def pastBare (reader : Reader) : Reader := { reader with pastDirective := true }

section PastBare

variable (reader : Reader) (path : Path) (number : Nat)

theorem openGroup_pastBare (argument : List Char) :
    reader.pastBare.openGroup number argument =
      (reader.openGroup number argument).map pastBare := by
  obtain ⟨dialect, past, groups, statements⟩ := reader
  unfold openGroup pastBare
  cases isGroupName argument with
  | false => rfl
  | true =>
    cases groups with
    | nil => rfl
    | cons parent outer =>
      cases query : parent.hasQuery <;> cases preface : parent.hasPreface <;>
        simp only [query, preface] <;> rfl

theorem closeGroup_pastBare (argument : List Char) :
    reader.pastBare.closeGroup path number argument =
      (reader.closeGroup path number argument).map pastBare := by
  obtain ⟨dialect, past, groups, statements⟩ := reader
  unfold closeGroup pastBare
  cases argument with
  | cons c rest => rfl
  | nil =>
    cases groups with
    | nil => rfl
    | cons group outer =>
      cases parent : group.isParent <;> cases query : group.hasQuery <;>
        cases known : statements.any (·.name == qualifiedName (group :: outer)) <;>
          simp [parent, query, known, Except.map]

theorem editHeader_pastBare (what : String) (edit : OpenGroup → Except LineFault OpenGroup) :
    reader.pastBare.editHeader what edit = (reader.editHeader what edit).map pastBare := by
  obtain ⟨dialect, past, groups, statements⟩ := reader
  unfold editHeader pastBare
  cases groups with
  | nil => rfl
  | cons group outer =>
    cases query : group.hasQuery <;> cases parent : group.isParent <;>
      cases edited : edit group <;> simp [query, parent, edited, Except.map]

theorem addVariable_pastBare (argument : List Char) :
    reader.pastBare.addVariable argument = (reader.addVariable argument).map pastBare := by
  unfold addVariable
  split
  · rfl
  · dsimp only
    split
    · rfl
    · split
      · rfl
      · exact editHeader_pastBare reader _ _

theorem atLine_map (result : Except LineFault Reader) :
    atLine number (result.map pastBare) = (atLine number result).map pastBare := by
  cases result <;> rfl

theorem readDirective_pastBare {directive : Directive}
    (other : ∀ argument, directive ≠ .dialect argument) :
    reader.pastBare.readDirective path number directive =
      (reader.readDirective path number directive).map pastBare := by
  cases directive with
  | bare => rfl
  | dialect argument => exact absurd rfl (other argument)
  | opening argument => rw [readDirective, openGroup_pastBare, atLine_map, readDirective]
  | closing argument => exact closeGroup_pastBare reader path number argument
  | description argument =>
    rw [readDirective, addDescription, editHeader_pastBare, atLine_map, readDirective,
      addDescription]
  | «variable» argument => rw [readDirective, addVariable_pastBare, atLine_map, readDirective]
  | unknown body => rfl

/-- Every directive but a dialect leaves the same behind, whether it is the first one or not. -/
theorem readLine_pastBare {directive : Directive}
    (other : ∀ argument, directive ≠ .dialect argument) :
    reader.pastBare.readLine path number (.directive directive) =
      reader.readLine path number (.directive directive) := by
  rw [readLine, readLine, readDirective_pastBare reader path number other]
  cases reader.readDirective path number directive <;> rfl

end PastBare

/-- Reads the lines as the last ones of a file. -/
def readToEnd (path : Path) (reader : Reader) (number : Nat) (lines : List Line) :
    Except ReadFault Document :=
  match readLines path reader number lines with
  | .ok last => last.finish path
  | .error fault => .error fault

variable {path : Path} {reader next last : Reader} {number : Nat} {lines : List Line}

theorem readToEnd_of_ok {line : Line} (rest : List Line)
    (h : reader.readLine path number line = .ok next) :
    readToEnd path reader number (line :: rest) = readToEnd path next (number + 1) rest := by
  rw [readToEnd, readLines, h]
  rfl

theorem readToEnd_of_error {line : Line} (rest : List Line) {fault : ReadFault}
    (h : reader.readLine path number line = .error fault) :
    readToEnd path reader number (line :: rest) = .error fault := by
  rw [readToEnd, readLines, h]

theorem readToEnd_append {earlier : List Line} (later : List Line)
    (h : readLines path reader number earlier = .ok next) :
    readToEnd path reader number (earlier ++ later) =
      readToEnd path next (number + earlier.length) later := by
  rw [readToEnd, readLines_append, h]
  rfl

theorem readToEnd_append_of_error {earlier : List Line} (later : List Line) {fault : ReadFault}
    (h : readLines path reader number earlier = .error fault) :
    readToEnd path reader number (earlier ++ later) = .error fault := by
  rw [readToEnd, readLines_append, h]

theorem readLine_comment_of_closed (closed : reader.groups = []) (text : List Char) :
    reader.readLine path number (.comment text) = .ok reader := by
  rw [readLine, addComment, closed]

theorem readLines_remarks (closed : reader.groups = [])
    (remarks : ∀ line ∈ lines, line.isRemark = true) :
    readLines path reader number lines = .ok reader := by
  induction lines generalizing number with
  | nil => rfl
  | cons line rest ih =>
    obtain ⟨first, later⟩ := List.forall_mem_cons.mp remarks
    cases line with
    | comment text =>
      rw [readLines, readLine_comment_of_closed closed]
      exact ih later
    | query text => cases first
    | directive directive => cases first

theorem pastDirective_run (path : Path) (reader : Reader) (number : Nat) (lines : List Line)
    (past : reader.pastDirective = true) :
    (reader.run path number lines).pastDirective = true := by
  induction lines generalizing reader number with
  | nil => exact past
  | cons line rest ih =>
    have still : (reader.advance path number line).pastDirective = true := by
      rw [advance, past, Bool.true_or]
    exact ih _ (number + 1) still

/-- Outside of all groups only remarks are read before the first directive. -/
theorem remarks_of_readLines (closed : reader.groups = [])
    (h : readLines path reader number lines = .ok last) (unseen : last.pastDirective = false) :
    ∀ line ∈ lines, line.isRemark = true := by
  induction lines generalizing number with
  | nil => exact List.forall_mem_nil _
  | cons line rest ih =>
    rw [readLines] at h
    cases line with
    | comment text =>
      rw [readLine_comment_of_closed closed] at h
      exact List.forall_mem_cons.mpr ⟨rfl, ih h⟩
    | query text =>
      rw [readLine, addQuery, closed] at h
      cases h
    | directive directive =>
      cases read : reader.readLine path number (.directive directive) with
      | error fault =>
        rw [read] at h
        cases h
      | ok next =>
        rw [read] at h
        obtain ⟨-, -, -, rfl⟩ := readLine_eq_ok_iff.mp read
        obtain ⟨-, -, -, rfl⟩ := readLines_eq_ok_iff.mp h
        rw [pastDirective_run path _ _ _ (Bool.or_true _)] at unseen
        cases unseen

theorem readToEnd_pastBare (closed : reader.groups = []) (none : ¬DialectFollows [] lines) :
    reader.pastBare.readToEnd path number lines = reader.readToEnd path number lines := by
  induction lines generalizing number with
  | nil => rfl
  | cons line rest ih =>
    cases line with
    | comment text =>
      have later : ¬DialectFollows [] rest := by
        rintro ⟨remarks, argument, others, split, plain⟩
        refine none ⟨.comment text :: remarks, argument, others, by rw [split]; rfl, ?_⟩
        exact List.forall_mem_cons.mpr ⟨rfl, plain⟩
      have skipped (reader : Reader) (closed : reader.groups = []) :
          reader.readToEnd path number (.comment text :: rest) =
            reader.readToEnd path (number + 1) rest :=
        readToEnd_of_ok rest (readLine_comment_of_closed closed text)
      rw [skipped reader closed, skipped reader.pastBare closed]
      exact ih later
    | query text =>
      have refused (reader : Reader) (closed : reader.groups = []) :
          reader.readLine path number (.query text) = .error ⟨number, .queryOutside⟩ := by
        rw [readLine, addQuery, closed, atLine]
      rw [readToEnd_of_error rest (refused reader closed),
        readToEnd_of_error rest (refused reader.pastBare closed)]
    | directive directive =>
      have other : ∀ argument, directive ≠ .dialect argument := by
        rintro argument rfl
        exact none ⟨[], argument, rest, rfl, List.forall_mem_nil _⟩
      rw [readToEnd, readLines, readLine_pastBare reader path number other, readToEnd, readLines]

theorem readToEnd_pastBare_dialect (closed : reader.groups = []) {remarks rest : List Line}
    (plain : ∀ line ∈ remarks, line.isRemark = true) (argument : List Char) :
    reader.pastBare.readToEnd path number (remarks ++ .directive (.dialect argument) :: rest) =
      .error ⟨number + remarks.length, .lateDialect⟩ := by
  have skipped : reader.pastBare.readLines path number remarks = .ok reader.pastBare :=
    readLines_remarks closed plain
  rw [readToEnd_append _ skipped]
  exact readToEnd_of_error rest rfl

/-- A dialect that is the first directive is not late, and a later one is on a later line. -/
theorem readToEnd_dialect_ne (closed : reader.groups = []) (unseen : reader.pastDirective = false)
    {remarks rest : List Line} (plain : ∀ line ∈ remarks, line.isRemark = true)
    (argument : List Char) :
    reader.readToEnd path number (remarks ++ .directive (.dialect argument) :: rest) ≠
      .error ⟨number + remarks.length, .lateDialect⟩ := by
  rw [readToEnd_append _ (readLines_remarks closed plain)]
  intro h
  cases read : reader.readLine path (number + remarks.length) (.directive (.dialect argument)) with
  | error fault =>
    rw [readToEnd_of_error rest read] at h
    cases h
    rw [readLine, readDirective, readDialect, unseen] at read
    cases named : Text.isName argument <;> rw [named] at read <;> cases read
  | ok next =>
    rw [readToEnd_of_ok rest read, readToEnd] at h
    cases later : readLines path next (number + remarks.length + 1) rest with
    | ok last =>
      rw [later] at h
      cases groups : last.groups <;> simp [finish, groups] at h
    | error fault =>
      rw [later] at h
      cases h
      obtain ⟨before, line, after, last, -, -, refused⟩ := exists_of_readLines_error later
      rcases places_of_readLine refused with ⟨-, place⟩ | ⟨⟨name, other⟩, -⟩
      · dsimp only at place
        omega
      · cases other

/-- After the lines before it, a line without a marker is read like a comment or hides a dialect. -/
theorem readToEnd_bare {before : List Line} (accepted : readLines path start 1 before = .ok reader)
    (none : ¬DialectFollows before lines) :
    reader.pastBare.readToEnd path number lines = reader.readToEnd path number lines := by
  obtain ⟨-, -, -, ran⟩ := readLines_eq_ok_iff.mp accepted
  cases past : reader.pastDirective with
  | true =>
    have same : reader.pastBare = reader := by rw [pastBare, ← past]
    rw [same]
  | false =>
    have plain := remarks_of_readLines rfl accepted past
    have same : start = reader := Except.ok.inj ((readLines_remarks rfl plain).symm.trans accepted)
    refine readToEnd_pastBare (same ▸ rfl) fun follows => none ?_
    obtain ⟨remarks, argument, rest, split, later⟩ := follows
    exact ⟨remarks, argument, rest, split, List.forall_mem_append.mpr ⟨plain, later⟩⟩

end Reader

namespace Document

variable {path : Path} {text : String} {before after : List Line}

theorem read_of_split {line : Line} {reader next : Reader}
    (lines : linesOf text = before ++ line :: after)
    (accepted : Reader.readLines path .start 1 before = .ok reader)
    (step : reader.readLine path (1 + before.length) line = .ok next) :
    read path text = next.readToEnd path (1 + before.length + 1) after := by
  have whole : read path text = Reader.start.readToEnd path 1 (linesOf text) := rfl
  rw [whole, lines, Reader.readToEnd_append _ accepted, Reader.readToEnd_of_ok after step]

theorem read_of_split_error {line : Line} {fault : ReadFault}
    (lines : linesOf text = before ++ line :: after)
    (refused : Reader.readLines path .start 1 before = .error fault) :
    read path text = .error fault := by
  have whole : read path text = Reader.start.readToEnd path 1 (linesOf text) := rfl
  rw [whole, lines, Reader.readToEnd_append_of_error _ refused]

/-- A text stays accepted when a comment is put outside of its query text. -/
theorem exists_read_inserted {longer : String} {comment : List Char}
    (lines : linesOf text = before ++ after)
    (linesLonger : linesOf longer = before ++ .comment comment :: after)
    (outside : true ∉ queriesBegun before) (h : ∃ document, read path text = .ok document) :
    ∃ document, read path longer = .ok document := by
  obtain ⟨document, h⟩ := h
  rw [read, lines] at h
  rw [read, linesLonger, Reader.readLines_inserted outside]
  cases accepted : Reader.readLines path .start 1 (before ++ after) with
  | error fault =>
    rw [accepted] at h
    cases h
  | ok reader =>
    rw [accepted] at h
    dsimp only [renumberedOutcome] at h ⊢
    rw [Reader.finish_renumbered, h]
    exact ⟨_, rfl⟩

section Bare

variable {commented bared : String} {bare : List Char}
  (linesCommented : linesOf commented = before ++ .comment "--".toList :: after)
  (linesBared : linesOf bared = before ++ .directive .bare :: after)

include linesBared in
theorem read_bare_before_dialect {remarks rest : List Line} {argument : List Char}
    (split : after = remarks ++ .directive (.dialect argument) :: rest)
    (plain : ∀ line ∈ before ++ remarks, line.isRemark = true) :
    read path bared = .error ⟨before.length + remarks.length + 2, .lateDialect⟩ := by
  obtain ⟨earlier, between⟩ := List.forall_mem_append.mp plain
  rw [read_of_split linesBared (Reader.readLines_remarks rfl earlier) rfl, split]
  refine (Reader.readToEnd_pastBare_dialect rfl between argument).trans ?_
  congr 2
  omega

include linesCommented in
theorem read_comment_before_dialect {remarks rest : List Line} {argument : List Char}
    (split : after = remarks ++ .directive (.dialect argument) :: rest)
    (plain : ∀ line ∈ before ++ remarks, line.isRemark = true) :
    read path commented ≠ .error ⟨before.length + remarks.length + 2, .lateDialect⟩ := by
  obtain ⟨earlier, between⟩ := List.forall_mem_append.mp plain
  rw [read_of_split linesCommented (Reader.readLines_remarks rfl earlier) rfl, split]
  have place : before.length + remarks.length + 2 = 1 + before.length + 1 + remarks.length := by
    omega
  rw [place]
  exact Reader.readToEnd_dialect_ne rfl rfl between argument

include linesCommented linesBared in
theorem read_bare_eq (outside : true ∉ queriesBegun before) (none : ¬DialectFollows before after) :
    read path bared = read path commented := by
  cases accepted : Reader.readLines path .start 1 before with
  | error fault =>
    rw [read_of_split_error linesBared accepted, read_of_split_error linesCommented accepted]
  | ok reader =>
    have waiting : true ∉ reader.groups.map OpenGroup.hasQuery := by
      obtain ⟨-, -, -, rfl⟩ := Reader.readLines_eq_ok_iff.mp accepted
      rwa [Reader.map_hasQuery_run]
    have comment : reader.readLine path (1 + before.length) (.comment "--".toList) =
        .ok reader := by
      rw [Reader.readLine, Reader.addComment_of_waiting waiting]
    have bare : reader.readLine path (1 + before.length) (.directive .bare) =
        .ok reader.pastBare := rfl
    rw [read_of_split linesBared accepted bare, read_of_split linesCommented accepted comment]
    exact Reader.readToEnd_bare accepted none

end Bare

/-- Outside of query text, a line without a marker does what the comment `--` does in its place,
    unless a dialect follows it as the first other directive. That dialect is refused as a late
    one. -/
theorem bare_line_reads_as_comment (path : Path) (commented bared : String)
    (before after : List Line) (bare : List Char)
    (linesCommented : linesOf commented = before ++ Line.ofText "--".toList :: after)
    (linesBared : linesOf bared = before ++ Line.ofText bare :: after)
    (isBare : Text.trim bare = "-- #".toList) (outside : true ∉ queriesBegun before) :
    (read path bared = read path commented ↔ ¬DialectFollows before after) ∧
      (∀ remarks argument rest, after = remarks ++ .directive (.dialect argument) :: rest →
        (∀ line ∈ before ++ remarks, line.isRemark = true) →
          read path bared = .error ⟨before.length + remarks.length + 2, .lateDialect⟩) ∧
      ∀ text : String, linesOf text = before ++ after →
        (∃ document, read path text = .ok document) →
          ((∃ document, read path bared = .ok document) ↔ ¬DialectFollows before after) := by
  rw [Line.ofText_bare isBare] at linesBared
  have comment : Line.ofText "--".toList = .comment "--".toList := by decide
  rw [comment] at linesCommented
  refine ⟨⟨fun same follows => ?_, read_bare_eq linesCommented linesBared outside⟩,
    fun remarks argument rest => read_bare_before_dialect linesBared, fun text lines known => ?_⟩
  · obtain ⟨remarks, argument, rest, split, plain⟩ := follows
    rw [read_bare_before_dialect linesBared split plain] at same
    exact read_comment_before_dialect linesCommented split plain same.symm
  · constructor
    · rintro ⟨document, accepted⟩ ⟨remarks, argument, rest, split, plain⟩
      rw [read_bare_before_dialect linesBared split plain] at accepted
      cases accepted
    · intro none
      rw [read_bare_eq linesCommented linesBared outside none]
      exact exists_read_inserted lines linesCommented outside known

def listText : String := "-- #\x7b list\n-- # :id int\nSELECT :id\n-- #\x7d"

theorem bare_line_of_listText :
    linesOf "-- #\x7b list\n--\n-- # :id int\nSELECT :id\n-- #\x7d" =
        [.directive (.opening "list".toList)] ++
          Line.ofText "--".toList :: (linesOf listText).tail ∧
      linesOf "-- #\x7b list\n -- # \t\n-- # :id int\nSELECT :id\n-- #\x7d" =
        [.directive (.opening "list".toList)] ++
          Line.ofText " -- # \t".toList :: (linesOf listText).tail ∧
      Text.trim " -- # \t".toList = "-- #".toList ∧
      true ∉ queriesBegun [.directive (.opening "list".toList)] ∧
      ¬DialectFollows [.directive (.opening "list".toList)] (linesOf listText).tail ∧
      read ⟨"q.sql"⟩ "-- #\x7b list\n -- # \t\n-- # :id int\nSELECT :id\n-- #\x7d" =
        read ⟨"q.sql"⟩ "-- #\x7b list\n--\n-- # :id int\nSELECT :id\n-- #\x7d" := by
  have linesCommented : linesOf "-- #\x7b list\n--\n-- # :id int\nSELECT :id\n-- #\x7d" =
      [.directive (.opening "list".toList)] ++
        Line.ofText "--".toList :: (linesOf listText).tail := by decide +kernel
  have linesBared : linesOf "-- #\x7b list\n -- # \t\n-- # :id int\nSELECT :id\n-- #\x7d" =
      [.directive (.opening "list".toList)] ++
        Line.ofText " -- # \t".toList :: (linesOf listText).tail := by decide +kernel
  have isBare : Text.trim " -- # \t".toList = "-- #".toList := by decide +kernel
  have outside : true ∉ queriesBegun [.directive (.opening "list".toList)] := by decide +kernel
  have none : ¬DialectFollows [.directive (.opening "list".toList)] (linesOf listText).tail := by
    rintro ⟨remarks, argument, rest, -, plain⟩
    cases plain (.directive (.opening "list".toList)) List.mem_cons_self
  obtain ⟨same, -, -⟩ :=
    bare_line_reads_as_comment ⟨"q.sql"⟩ _ _ _ _ _ linesCommented linesBared isBare outside
  exact ⟨linesCommented, linesBared, isBare, outside, none, same.mpr none⟩

/-- A dialect that is accepted behind a comment is refused behind a line without a marker. -/
theorem bare_line_hides_dialect :
    linesOf "-- #!sqlite\n" = [] ++ [.directive (.dialect "sqlite".toList)] ∧
      linesOf "--\n-- #!sqlite\n" =
        [] ++ Line.ofText "--".toList :: [.directive (.dialect "sqlite".toList)] ∧
      linesOf "-- #\n-- #!sqlite\n" =
        [] ++ Line.ofText "-- #".toList :: [.directive (.dialect "sqlite".toList)] ∧
      Text.trim "-- #".toList = "-- #".toList ∧ true ∉ queriesBegun [] ∧
      read ⟨"q.sql"⟩ "-- #!sqlite\n" = .ok ⟨⟨"q.sql"⟩, some "sqlite", []⟩ ∧
      read ⟨"q.sql"⟩ "--\n-- #!sqlite\n" = .ok ⟨⟨"q.sql"⟩, some "sqlite", []⟩ ∧
      read ⟨"q.sql"⟩ "-- #\n-- #!sqlite\n" = .error ⟨2, .lateDialect⟩ := by
  decide +kernel

end Document

end QueryContract
