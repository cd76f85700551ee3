import QueryContract.Proofs.Artifact.Safety
import QueryContract.Proofs.Contract.Variants
import QueryContract.Proofs.Text.LineFeeds
import QueryContract.Proofs.Text.Quoting

/-!
The two line breaks of a generated file. No line of the file has a line feed inside, whatever the
docs, the queries and the names of its statements are, so that the files with the one and with the
other break differ in the line breaks alone.
-/

namespace QueryContract

open Text (Unbroken unbroken_ofList unbroken_of_isNamePart)

/-- Neither a variable, a default nor the file of the statement breaks a line. -/
structure Statement.KeepsLines (statement : Statement) : Prop where
  names : ∀ name ∈ statement.declarations.keys, Text.isName name.toList = true
  defaults : ∀ declared ∈ statement.declarations.pairs, ∀ value,
    declared.2.fallback = some (.string value) → Unbroken value
  file : Unbroken statement.file.text

namespace Artifact

open Literal (escapeSingle escapeDollar)

theorem Numeric.unbroken {text : String} (h : Numeric text) : Unbroken text :=
  fun c member => isNumeric_cases (p := fun c => c ≠ '\n') (by decide) (h c member)

section Literals

theorem unbroken_singleQuoted {value : String} (h : Unbroken value) :
    Unbroken (Literal.singleQuoted value) := by
  have escaped : ∀ c ∈ value.toList.flatMap escapeSingle, c ≠ '\n' := by
    intro c member
    obtain ⟨source, inside, found⟩ := List.mem_flatMap.mp member
    rw [escapeSingle] at found
    split at found
    · simp only [List.mem_cons, List.not_mem_nil, or_false] at found
      rcases found with rfl | rfl
      · decide
      · exact h c inside
    · rw [List.mem_singleton.mp found]
      exact h source inside
  apply unbroken_ofList
  intro c member
  simp only [List.cons_append, List.mem_cons, List.mem_append, List.not_mem_nil, or_false] at member
  rcases member with rfl | inside | rfl
  · decide
  · exact escaped c inside
  · decide

/-- Line feeds are written as escapes in double quotes. -/
theorem unbroken_doubleQuoted (text : String) : Unbroken (Literal.doubleQuoted text) := by
  apply unbroken_ofList
  intro c member
  obtain ⟨source, written, found⟩ := List.mem_flatMap.mp member
  have visible := Text.Quoted.write_visible text.toList source written
  rw [escapeDollar] at found
  split at found
  · simp only [List.mem_cons, List.not_mem_nil, or_false] at found
    rcases found with rfl | rfl <;> decide
  · rw [List.mem_singleton.mp found]
    intro feed
    rw [feed] at visible
    exact visible (by decide)

theorem unbroken_ofValue {value : Fallback} (h : ∀ text, value = .string text → Unbroken text) :
    Unbroken (Literal.ofValue value) := by
  cases value with
  | null => exact (by decide : Unbroken "null")
  | int value => exact (numeric_showInt _).unbroken
  | float value => exact (numeric_layoutText _ value).unbroken
  | bool value =>
    cases value with
    | true => exact (by decide : Unbroken "true")
    | false => exact (by decide : Unbroken "false")
  | string value => exact unbroken_singleQuoted (h value rfl)
  | now => exact (by decide : Unbroken (Literal.singleQuoted "NOW"))

end Literals

/-- Nothing that the operation has on lines of the file breaks them. -/
structure KeepsLines (operation : Operation) : Prop where
  spelled : Spelled operation
  defaults : ∀ parameter ∈ operation.parameters.canonical, ∀ value,
    parameter.declaration.fallback = some (.string value) → Unbroken value
  described : ∀ description, operation.doc = some description → Unbroken description.file.text
  origins : ∀ origin ∈ operation.origins, Unbroken origin.file.text

theorem keepsLines_of_ofEntries {statements : List Statement}
    (kept : ∀ statement ∈ statements, statement.KeepsLines)
    {stripped : String} {log last : NoticeLog} {contract : Contract}
    (merged : (Contract.ofEntries stripped (Entry.ofStatements statements)).run.run log =
      (.ok contract, last)) :
    ∀ operation ∈ contract.operations, KeepsLines operation := by
  intro operation member
  have named : ∀ statement ∈ statements, ∀ name ∈ statement.declarations.keys,
      Text.isName name.toList = true := fun statement listed => (kept statement listed).names
  obtain ⟨base, inStatements, pairs⟩ := Contract.exists_base_of_ofEntries merged operation member
  obtain ⟨entry, entered, merges⟩ := Contract.merges_of_ofEntries merged operation member
  have variants := (Entry.gathers_of_mem_ofStatements entered).2
  have told := merges.tells
  constructor
  · exact spelled_of_ofEntries named merged operation member
  · intro parameter listed
    apply (kept base inStatements).defaults (parameter.name, parameter.declaration)
    exact pairs ▸ List.mem_map_of_mem listed
  · intro description found
    obtain ⟨variant, first, -, rfl⟩ := (told.documented description).mp found
    exact (kept variant (variants variant first.mem)).file
  · intro origin found
    rw [told.origins] at found
    obtain ⟨variant, inEntry, rfl⟩ := List.mem_map.mp found
    exact (kept variant (variants variant inEntry)).file

section Lines

variable {operation : Operation} {parameter : Parameter} {indent : String}

theorem unbroken_indentation (indentation : Indentation) : Unbroken indentation.text := by
  cases indentation with
  | tab => exact (by decide : Unbroken "\t")
  | spaces width =>
    apply unbroken_ofList
    intro c member
    rw [List.eq_of_mem_replicate member]
    decide

theorem unbroken_valueText (declaration : Declaration) : Unbroken (valueText declaration) := by
  have scalar : Unbroken (scalarText declaration.scalar) := by cases declaration.scalar <;> decide
  have nullable : Unbroken (if declaration.nullable then "?" else "") := by
    cases declaration.nullable <;> decide
  exact nullable.append scalar

theorem unbroken_documentedType (declaration : Declaration) :
    Unbroken (documentedType declaration) := by
  have value := unbroken_valueText declaration
  rw [documentedType]
  split
  · exact (Text.Unbroken.append (by decide) value).append (by decide)
  · exact value

theorem unbroken_signatureType (declaration : Declaration) :
    Unbroken (signatureType declaration) := by
  rw [signatureType]
  split
  · decide
  · exact unbroken_valueText declaration

theorem unbroken_descriptionLines {doc : Option Description}
    (h : ∀ description, doc = some description → Unbroken description.file.text) :
    ∀ line ∈ descriptionLines doc, Unbroken line := by
  cases doc with
  | none => exact nofun
  | some description =>
    have heading : Unbroken ("<i>(Description from " ++ description.file.text ++ ")</i>") :=
      (Text.Unbroken.append (by decide) (h description rfl)).append (by decide)
    have blank : Unbroken "" := by decide
    intro line member
    simp only [descriptionLines, List.mem_append, List.mem_cons, List.not_mem_nil, or_false,
      List.mem_map] at member
    rcases member with ((rfl | rfl) | ⟨chars, found, rfl⟩) | rfl
    · exact heading
    · exact blank
    · exact unbroken_ofList (Text.lineFeed_not_mem_lines found)
    · exact blank

theorem unbroken_answerLine (kind : QueryKind) : Unbroken (answerLine kind) := by
  have generator : Unbroken generatorType := Text.Unbroken.append (by decide) (by decide)
  have answer : Unbroken kind.answerType := by cases kind <;> decide
  exact ((Text.Unbroken.append (by decide : Unbroken "@return ") generator).append answer).append
    (by decide)

theorem unbroken_documentation (h : KeepsLines operation) :
    ∀ line ∈ documentation operation, Unbroken line := by
  intro line member
  simp only [documentation, List.mem_append, List.mem_map, List.mem_singleton] at member
  rcases member with (((described | rfl) | ⟨origin, found, rfl⟩) | ⟨parameter, found, rfl⟩) | rfl
  · exact unbroken_descriptionLines h.described line described
  · decide
  · have place := (Text.Unbroken.append (by decide : Unbroken "- ") (h.origins origin found)).append
      (by decide : Unbroken ":")
    exact place.append (numeric_showNat origin.line).unbroken
  · have type := (Text.Unbroken.append (by decide : Unbroken "@param ")
      (unbroken_documentedType parameter.declaration)).append (by decide : Unbroken " $")
    exact type.append (unbroken_of_isNamePart (h.spelled.parameters parameter found))
  · exact unbroken_answerLine operation.kind

theorem mem_guardComment {text : List Char} {c : Char} (h : c ∈ guardComment text) :
    c = '\\' ∨ c ∈ text := by
  induction text with
  | nil => cases h
  | cons first rest ih =>
    rw [guardComment] at h
    split at h
    · rename_i marked
      simp only [List.mem_cons] at h
      rcases h with star | backslash | later
      · exact .inr (List.mem_cons.mpr (.inl (star.trans marked.1.symm)))
      · exact .inl backslash
      · exact (ih later).imp_right (List.mem_cons_of_mem _)
    · rcases List.mem_cons.mp h with here | later
      · exact .inr (List.mem_cons.mpr (.inl here))
      · exact (ih later).imp_right (List.mem_cons_of_mem _)

theorem unbroken_commentLine {line : String} (hi : Unbroken indent) (h : Unbroken line) :
    Unbroken (commentLine indent line) := by
  have guarded : Unbroken (String.ofList (guardComment line.toList)) := by
    apply unbroken_ofList
    intro c member
    rcases mem_guardComment member with rfl | inside
    · decide
    · exact h c inside
  simp only [commentLine]
  split
  · exact hi.append (by decide)
  · exact (hi.append (by decide)).append guarded

theorem unbroken_commentLines (hi : Unbroken indent) (h : KeepsLines operation) :
    ∀ line ∈ commentLines indent operation, Unbroken line := by
  intro line member
  simp only [commentLines, List.mem_append, List.mem_singleton, List.mem_map] at member
  rcases member with (rfl | ⟨documented, found, rfl⟩) | rfl
  · exact hi.append (by decide)
  · exact unbroken_commentLine hi (unbroken_documentation h documented found)
  · exact hi.append (by decide)

theorem unbroken_signature (named : Unbroken parameter.name)
    (h : ∀ value, parameter.declaration.fallback = some (.string value) → Unbroken value) :
    Unbroken (signature parameter) := by
  have declared := ((unbroken_signatureType parameter.declaration).append
    (by decide : Unbroken " $")).append named
  simp only [signature]
  split
  · rename_i value found
    split
    · have literal : Unbroken (Literal.ofValue value) :=
        unbroken_ofValue fun text same => h text (found.trans (congrArg some same))
      exact (declared.append (by decide)).append literal
    · exact declared
  · exact declared

theorem unbroken_signatureLine (h : KeepsLines operation) : Unbroken (signatureLine operation) := by
  have method := unbroken_of_isNamePart h.spelled.method
  have parameters : Unbroken (", ".intercalate (operation.parameters.canonical.map signature)) := by
    apply Text.Unbroken.intercalate (by decide)
    intro part member
    obtain ⟨parameter, found, rfl⟩ := List.mem_map.mp member
    exact unbroken_signature (unbroken_of_isNamePart (h.spelled.parameters parameter found))
      (h.defaults parameter found)
  have front := (Text.Unbroken.append (by decide : Unbroken "public function ") method).append
    (by decide : Unbroken "(")
  exact ((front.append parameters).append (by decide)).append (by decide)

theorem unbroken_callLine (h : KeepsLines operation) : Unbroken (callLine operation) := by
  have arguments : Unbroken (", ".intercalate (operation.parameters.canonical.map argument)) := by
    apply Text.Unbroken.intercalate (by decide)
    intro part member
    obtain ⟨parameter, found, rfl⟩ := List.mem_map.mp member
    have named := unbroken_of_isNamePart (h.spelled.parameters parameter found)
    exact ((Text.Unbroken.append (by decide : Unbroken "\"") named).append (by decide)).append named
  have front : Unbroken ("$this->conn->" ++ operation.kind.connectorMethod ++ "(") := by
    cases operation.kind <;> decide
  have named := front.append (unbroken_doubleQuoted operation.name)
  exact ((named.append (by decide)).append arguments).append (by decide)

theorem unbroken_methodLines (hi : Unbroken indent) (h : KeepsLines operation) :
    ∀ line ∈ methodLines indent operation, Unbroken line := by
  simp only [methodLines, List.forall_mem_cons, List.not_mem_nil, false_implies, implies_true,
    and_true]
  exact ⟨hi.append (unbroken_signatureLine h), (hi.append hi).append (unbroken_callLine h),
    (hi.append hi).append (by decide), hi.append (by decide)⟩

theorem unbroken_operationLines (hi : Unbroken indent) (h : KeepsLines operation) :
    ∀ line ∈ operationLines indent operation, Unbroken line := by
  have blank : ∀ line ∈ [""], Unbroken line := List.forall_mem_singleton.mpr (by decide)
  exact List.forall_mem_append.mpr ⟨List.forall_mem_append.mpr
    ⟨blank, unbroken_commentLines hi h⟩, unbroken_methodLines hi h⟩

end Lines

section File

variable {contract : Contract} {sources : List Path} {name : ArtifactName}

theorem unbroken_headLines (h : ∀ source ∈ sources, Unbroken source.baseName) :
    ∀ line ∈ headLines sources, Unbroken line := by
  have names : Unbroken (", ".intercalate (sources.map Path.baseName)) :=
    Text.Unbroken.intercalate (by decide) (List.forall_mem_map.mpr h)
  have created : Unbroken (" * Created from " ++ ", ".intercalate (sources.map Path.baseName)) :=
    Text.Unbroken.append (by decide) names
  simp only [headLines, List.forall_mem_cons, List.not_mem_nil, false_implies, implies_true,
    and_true, created]
  decide

theorem unbroken_namespaceLines
    (h : ∀ segment ∈ name.segments, ∀ c ∈ segment.toList, Text.isNamePart c = true) :
    ∀ line ∈ namespaceLines name, Unbroken line := by
  rcases namespaceLines_cases name with none | lines
  · simp [none]
  · have joined : Unbroken ("\\".intercalate name.parents) :=
      Text.Unbroken.intercalate (by decide) fun part member =>
        unbroken_of_isNamePart (h part (List.mem_append_left _ member))
    have declared : Unbroken ("namespace " ++ "\\".intercalate name.parents ++ ";") :=
      (Text.Unbroken.append (by decide) joined).append (by decide)
    rw [lines]
    exact List.forall_mem_cons.mpr ⟨declared, List.forall_mem_singleton.mpr (by decide)⟩

theorem unbroken_containerLines (style : Style)
    (operations : ∀ operation ∈ contract.operations, KeepsLines operation)
    (h : ∀ c ∈ name.container.toList, Text.isNamePart c = true) :
    ∀ line ∈ containerLines contract name style, Unbroken line := by
  have indent := unbroken_indentation style.indentation
  have words : Unbroken style.container.words := by cases style.container <;> decide
  have head := ((words.append (by decide : Unbroken " ")).append (unbroken_of_isNamePart h)).append
    (by decide : Unbroken openBrace)
  have connected : Unbroken "public function __construct(private DataConnector $conn) " := by decide
  have constructor := ((indent.append connected).append (by decide : Unbroken openBrace)).append
    (by decide : Unbroken closeBrace)
  intro line member
  simp only [containerLines, List.mem_append, List.mem_cons, List.not_mem_nil, or_false,
    List.mem_flatMap] at member
  rcases member with ((rfl | rfl) | ⟨operation, found, inside⟩) | rfl
  · exact head
  · exact constructor
  · exact unbroken_operationLines indent (operations operation found) line inside
  · decide

theorem unbroken_lines (style : Style)
    (operations : ∀ operation ∈ contract.operations, KeepsLines operation)
    (hs : ∀ source ∈ sources, Unbroken source.baseName)
    (hn : ∀ segment ∈ name.segments, ∀ c ∈ segment.toList, Text.isNamePart c = true) :
    ∀ line ∈ lines contract sources name style, Unbroken line := by
  have imports : ∀ line ∈ importLines, Unbroken line := by decide
  have container := unbroken_containerLines style operations
    (hn name.container (List.mem_append_right _ List.mem_cons_self))
  simp only [lines, List.forall_mem_append]
  exact ⟨⟨⟨unbroken_headLines hs, unbroken_namespaceLines hn⟩, imports⟩, container⟩

theorem toList_text (style : Style) : (text contract sources name style).toList =
    (lines contract sources name style).flatMap fun line =>
      line.toList ++ style.lineBreak.text.toList := by
  simp [text, String.toList_join, List.flatMap_map]

end File

/-- The file with the other line break has a carriage return before each line feed and is the same
    otherwise. A source without a file name is listed by its whole text. -/
theorem line_breaks_differ_in_returns {statements : List Statement}
    (kept : ∀ statement ∈ statements, statement.KeepsLines)
    {stripped : String} {log last : NoticeLog} {contract : Contract}
    (merged : (Contract.ofEntries stripped (Entry.ofStatements statements)).run.run log =
      (.ok contract, last))
    {sources : List Path} (files : ∀ source ∈ sources, Unbroken source.baseName)
    {raw : String} {name : ArtifactName} (read : ArtifactName.read? raw = some name)
    (style : Style) :
    let rendered (lineBreak : LineBreak) :=
      (text contract sources name { style with lineBreak := lineBreak }).toList
    rendered .crlf = Text.withReturns (rendered .lf) ∧
      (∃ lines : List String, (∀ line ∈ lines, Unbroken line) ∧
        rendered .crlf = lines.flatMap fun line => line.toList ++ ['\r', '\n']) ∧
      ∀ before after, rendered .crlf = before ++ '\n' :: after → before.getLast? = some '\r' := by
  intro rendered
  have unbroken := unbroken_lines style (keepsLines_of_ofEntries kept merged) files
    (isNamePart_of_read read)
  have ended (lineBreak : LineBreak) : rendered lineBreak =
      (lines contract sources name style).flatMap fun line =>
        line.toList ++ lineBreak.text.toList := toList_text { style with lineBreak := lineBreak }
  have pair : LineBreak.crlf.text.toList = ['\r', '\n'] := by decide
  have single : LineBreak.lf.text.toList = ['\n'] := by decide
  have crlf := ended .crlf
  have lf := ended .lf
  rw [pair] at crlf
  rw [single] at lf
  have replaced : rendered .crlf = Text.withReturns (rendered .lf) := by
    rw [crlf, lf, Text.withReturns_lines unbroken]
  refine ⟨replaced, ⟨_, unbroken, crlf⟩, ?_⟩
  intro before after split
  exact Text.getLast?_of_withReturns (replaced ▸ split)

def brokenStatement : Statement where
  name := "a\nb"
  query := "-- c\nselect 1"
  declarations := .ofList [("v", ⟨.string, false, false, true, some (.string "\r")⟩)]
  doc := "d\r\r\ne\n"
  file := ⟨"f.sql"⟩
  line := 1

theorem returns_of_brokenStatement : ∃ contract last,
    (Contract.ofEntries "" (Entry.ofStatements [brokenStatement])).run.run .empty =
        (.ok contract, last) ∧
      (text contract [⟨"g\n/f.sql"⟩] ⟨["A"], "B"⟩ ⟨"", .crlf, .tab, .trait⟩).toList =
        Text.withReturns
          (text contract [⟨"g\n/f.sql"⟩] ⟨["A"], "B"⟩ ⟨"", .lf, .tab, .trait⟩).toList := by
  let merging : Recording Conflict Contract :=
    Contract.ofEntries "" (Entry.ofStatements [brokenStatement])
  have merges : (merging.run.run .empty).1.isOk = true := by decide +kernel
  obtain ⟨contract, last, merged⟩ := Recording.exists_of_isOk merges
  have kept : brokenStatement.KeepsLines := by
    constructor
    · decide +kernel
    · intro declared member value fallback
      have only : declared = ("v", ⟨.string, false, false, true, some (.string "\r")⟩) :=
        List.mem_singleton.mp member
      rw [only] at fallback
      cases fallback
      decide
    · decide
  have files : ∀ source ∈ [(⟨"g\n/f.sql"⟩ : Path)], Text.Unbroken source.baseName := by
    decide +kernel
  have read : ArtifactName.read? "A.B" = some ⟨["A"], "B"⟩ := by decide +kernel
  exact ⟨contract, last, merged, (line_breaks_differ_in_returns (List.forall_mem_singleton.mpr kept)
    merged files read ⟨"", .lf, .tab, .trait⟩).1⟩

end Artifact

end QueryContract
