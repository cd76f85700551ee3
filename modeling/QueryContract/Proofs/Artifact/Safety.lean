import QueryContract.Proofs.Artifact.Comments
import QueryContract.Proofs.Artifact.Name
import QueryContract.Proofs.Contract.Operations

/-!
No text of a declaration gets out of the comments and strings of the generated file. Line by line
the file is in code or in a comment, and each line ends where the next one may begin.
-/

namespace QueryContract.Artifact

open Marked (fixed closer)

theorem plain_indentation (indentation : Indentation) : Plain indentation.text := by
  cases indentation with
  | tab => decide
  | spaces width =>
    intro c member
    rw [Indentation.text, String.toList_ofList] at member
    rw [List.eq_of_mem_replicate member]
    decide

theorem contained_code_nil : StaysInCode [] := .nil _

theorem contained_methodLines (style : Style) {operation : Operation} (h : Spelled operation) :
    ∀ line ∈ Marked.methodLines style.indentation.text operation, StaysInCode line := by
  have indent := plain_indentation style.indentation
  have answer : Plain "return yield Await::ONCE;" := by decide
  have brace : Plain closeBrace := by decide
  simp only [Marked.methodLines, List.forall_mem_cons, List.not_mem_nil, false_implies,
    implies_true, and_true]
  exact ⟨(contained_plain indent).append (contained_signatureLine h),
    (contained_plain (indent.append indent)).append (contained_callLine h),
    contained_plain ((indent.append indent).append answer), contained_plain (indent.append brace)⟩

theorem contained_operationLines (style : Style) {operation : Operation} (h : Spelled operation) :
    StaysInCode (ended style (Marked.operationLines style.indentation.text operation)) := by
  have indent := plain_indentation style.indentation
  have comment :
      StaysInCode (ended style (Marked.commentLines style.indentation.text operation)) := by
    refine contained_block style ⟨true, contained_openingLine indent⟩ ?_
      (contained_closingLine indent)
    intro line member
    obtain ⟨documented, found, rfl⟩ := List.mem_map.mp member
    exact staysInComment_commentLine indent (unbraced_documentation found)
  have blank : ∀ line ∈ [([] : Marked)], StaysInCode line :=
    List.forall_mem_singleton.mpr contained_code_nil
  exact contained_ended_append (contained_ended_append (contained_codeLines style blank) comment)
    (contained_codeLines style (contained_methodLines style h))

/-- The lines of the comment at the head of the file. -/
def creationLines (sources : List Path) : List Marked :=
  [fixed (" * Auto-generated by " ++ toolName),
    fixed " * Created from "
      ++ (fixed ", ").intercalate (sources.map fun source => Marked.input .baseName source.baseName)]

theorem slashless_creationLines {sources : List Path}
    (h : ∀ source ∈ sources, source.fileName?.isSome) :
    ∀ line ∈ creationLines sources, Slashless line := by
  have names : Slashless ((fixed ", ").intercalate
      (sources.map fun source => Marked.input .baseName source.baseName)) := by
    apply Slashless.intercalate (Plain.slashless (by decide))
    intro part member
    obtain ⟨source, found, rfl⟩ := List.mem_map.mp member
    obtain ⟨fileName, named⟩ := Option.isSome_iff_exists.mp (h source found)
    apply slashless_mark rfl
    rw [Path.baseName, named]
    exact Path.slash_not_mem_fileName named
  have created : Slashless (fixed " * Created from ") := Plain.slashless (by decide)
  have tool : Slashless (fixed (" * Auto-generated by " ++ toolName)) := Plain.slashless (by decide)
  exact List.forall_mem_cons.mpr ⟨tool, List.forall_mem_singleton.mpr (created.append names)⟩

theorem contained_headLines (style : Style) {sources : List Path}
    (h : ∀ source ∈ sources, source.fileName?.isSome) :
    StaysInCode (ended style (Marked.headLines sources)) := by
  have closing : Contained (.comment false) (fixed " *" ++ closer) (.code false) :=
    @contained_closingLine "" (by decide)
  have comment := contained_block style ⟨false, contained_slash.append contained_opener⟩
    (fun line member => (slashless_creationLines h line member).staysInComment) closing
  have before : ∀ line ∈ [fixed "<?php", []], StaysInCode line :=
    List.forall_mem_cons.mpr
      ⟨contained_plain (by decide), List.forall_mem_singleton.mpr contained_code_nil⟩
  have after : ∀ line ∈ [[], fixed "declare(strict_types=1);", []], StaysInCode line :=
    List.forall_mem_cons.mpr ⟨contained_code_nil, List.forall_mem_cons.mpr
      ⟨contained_plain (by decide), List.forall_mem_singleton.mpr contained_code_nil⟩⟩
  exact contained_ended_append (contained_codeLines style before)
    (contained_ended_append comment (contained_codeLines style after))

theorem namespaceLines_cases (name : ArtifactName) : namespaceLines name = [] ∨
    namespaceLines name = ["namespace " ++ "\\".intercalate name.parents ++ ";", ""] := by
  rw [namespaceLines, ArtifactName.enclosing?]
  cases name.parents.isEmpty with
  | true => exact .inl rfl
  | false => exact .inr rfl

theorem bare_namespace {name : ArtifactName}
    (h : ∀ segment ∈ name.segments, ∀ c ∈ segment.toList, Text.isNamePart c = true) :
    Bare ("namespace " ++ "\\".intercalate name.parents) := by
  have parents : ∀ part ∈ name.parents, Bare part := fun part member =>
    bare_of_isNamePart (h part (List.mem_append_left _ member))
  have separator : Bare "\\" := by decide
  exact Bare.append (by decide) (Text.forall_mem_intercalate separator parents)

theorem plain_namespaceLines {name : ArtifactName}
    (h : ∀ segment ∈ name.segments, ∀ c ∈ segment.toList, Text.isNamePart c = true) :
    ∀ line ∈ namespaceLines name, Plain line := by
  rcases namespaceLines_cases name with none | lines
  · rw [none]
    exact fun _ member => nomatch member
  · rw [lines]
    have declared : Plain ("namespace " ++ "\\".intercalate name.parents ++ ";") :=
      (bare_namespace h).plain.append (by decide)
    exact List.forall_mem_cons.mpr ⟨declared, List.forall_mem_singleton.mpr (by decide)⟩

theorem contained_operations (style : Style) {operations : List Operation}
    (h : ∀ operation ∈ operations, Spelled operation) :
    StaysInCode
      (ended style (operations.flatMap (Marked.operationLines style.indentation.text))) := by
  induction operations with
  | nil => exact contained_code_nil
  | cons operation rest ih =>
    obtain ⟨first, later⟩ := List.forall_mem_cons.mp h
    exact contained_ended_append (contained_operationLines style first) (ih later)

theorem contained_containerLines {contract : Contract} {name : ArtifactName} (style : Style)
    (h : ∀ operation ∈ contract.operations, Spelled operation)
    (hn : ∀ c ∈ name.container.toList, Text.isNamePart c = true) :
    StaysInCode (ended style (Marked.containerLines contract name style)) := by
  have indent := plain_indentation style.indentation
  have words : Plain (style.container.words ++ " ") := by cases style.container <;> decide
  have constructor : Plain "public function __construct(private DataConnector $conn) " := by decide
  have opens : Plain openBrace := by decide
  have closes : Plain closeBrace := by decide
  have front : ∀ line ∈ [fixed (style.container.words ++ " " ++ name.container ++ openBrace),
      fixed (style.indentation.text ++ "public function __construct(private DataConnector $conn) "
        ++ openBrace ++ closeBrace)], StaysInCode line :=
    List.forall_mem_cons.mpr
      ⟨contained_plain ((words.append (bare_of_isNamePart hn).plain).append opens),
        List.forall_mem_singleton.mpr
          (contained_plain (((indent.append constructor).append opens).append closes))⟩
  exact contained_ended_append
    (contained_ended_append (contained_codeLines style front) (contained_operations style h))
    (contained_codeLines style (List.forall_mem_singleton.mpr (contained_plain closes)))

theorem contained_file {contract : Contract} {sources : List Path} {name : ArtifactName}
    (style : Style) (operations : ∀ operation ∈ contract.operations, Spelled operation)
    (hs : ∀ source ∈ sources, source.fileName?.isSome)
    (hn : ∀ segment ∈ name.segments, ∀ c ∈ segment.toList, Text.isNamePart c = true) :
    StaysInCode (Marked.file contract sources name style) := by
  have plainLines {lines : List String} (h : ∀ line ∈ lines, Plain line) :
      StaysInCode (ended style (lines.map fixed)) := by
    apply contained_codeLines style
    intro part member
    obtain ⟨line, found, rfl⟩ := List.mem_map.mp member
    exact contained_plain (h line found)
  have imports : ∀ line ∈ importLines, Plain line := by decide +kernel
  have container := contained_containerLines style operations
    (hn name.container (List.mem_append_right _ List.mem_cons_self))
  exact contained_ended_append
    (contained_ended_append
      (contained_ended_append (contained_headLines style hs) (plainLines (plain_namespaceLines hn)))
      (plainLines imports)) container

theorem isNamePart_of_isMethodName {name : List Char} (h : Naming.isMethodName name = true) :
    ∀ c ∈ name, Text.isNamePart c = true := by
  cases name with
  | nil => cases h
  | cons first rest =>
    rw [Naming.isMethodName, Bool.and_eq_true, Bool.or_eq_true, List.all_eq_true] at h
    have part : Text.isNamePart first = true := by
      rcases h.1 with lower | underscore
      · simp [Text.isNamePart, Text.isAlphanum_of_isLower lower]
      · simp [Text.isNamePart, underscore]
    exact List.forall_mem_cons.mpr ⟨part, fun c member => by simp [Text.isNamePart, h.2 c member]⟩

theorem isNamePart_of_read {raw : String} {name : ArtifactName}
    (h : ArtifactName.read? raw = some name) :
    ∀ segment ∈ name.segments, ∀ c ∈ segment.toList, Text.isNamePart c = true :=
  fun segment member => Text.isNamePart_of_isName (ArtifactName.isName_of_read h segment member)

theorem spelled_of_ofEntries {statements : List Statement}
    (names : ∀ statement ∈ statements, ∀ name ∈ statement.declarations.keys,
      Text.isName name.toList = true)
    {stripped : String} {log last : NoticeLog} {contract : Contract}
    (merged : (Contract.ofEntries stripped (Entry.ofStatements statements)).run.run log =
      (.ok contract, last)) :
    ∀ operation ∈ contract.operations, Spelled operation := by
  intro operation member
  refine ⟨isNamePart_of_isMethodName (Contract.method_of_ofEntries merged member), ?_⟩
  intro parameter found
  obtain ⟨statement, held, pairs⟩ := Contract.exists_base_of_ofEntries merged operation member
  have pair : (parameter.name, parameter.declaration) ∈ statement.declarations.pairs :=
    pairs ▸ List.mem_map_of_mem found
  exact Text.isNamePart_of_isName
    (names statement held parameter.name (List.mem_map_of_mem pair))

/-- Scanned from its start, the generated text agrees with its marks character by character: foreign
    text is scanned in comments and strings alone, comments are opened and closed where they are
    meant to be, no dollar sign stands unescaped in double quotes, and the end is code. -/
theorem inputs_stay_out_of_code {statements : List Statement}
    (names : ∀ statement ∈ statements, ∀ name ∈ statement.declarations.keys,
      Text.isName name.toList = true)
    {stripped : String} {log last : NoticeLog} {contract : Contract}
    (merged : (Contract.ofEntries stripped (Entry.ofStatements statements)).run.run log =
      (.ok contract, last))
    {raw : String} {name : ArtifactName} (read : ArtifactName.read? raw = some name)
    {sources : List Path} (files : ∀ source ∈ sources, source.fileName?.isSome) (style : Style) :
    (Marked.file contract sources name style).text =
        (Artifact.text contract sources name style).toList ∧
      (∀ (before : Marked) c kind after,
        Marked.file contract sources name style = before ++ (c, kind) :: after →
          Agrees (Mode.scan (.code false) before.text) c kind) ∧
      Mode.scan (.code false) (Artifact.text contract sources name style).toList = .code false := by
  have text := Marked.text_file contract sources name style
  have contained := contained_file style (spelled_of_ofEntries names merged) files
    (isNamePart_of_read read)
  exact ⟨text, fun _ _ _ _ split => contained.agrees split, text ▸ contained.scan_eq⟩

def hostileStatement : Statement where
  name := "a\"; $b"
  query := "select 1"
  declarations := .ofList [("v", ⟨.string, false, false, true, some (.string "'; \\")⟩)]
  doc := "**/ $c"
  file := ⟨"d*/e.sql"⟩
  line := 1

theorem inputs_of_hostileStatement : ∃ contract last,
    (Contract.ofEntries "" (Entry.ofStatements [hostileStatement])).run.run .empty =
        (.ok contract, last) ∧
      Mode.scan (.code false)
        (Artifact.text contract [hostileStatement.file] ⟨["A"], "B"⟩
          ⟨"", .crlf, .tab, .interface⟩).toList = .code false := by
  let merging : Recording Conflict Contract :=
    Contract.ofEntries "" (Entry.ofStatements [hostileStatement])
  have merges : (merging.run.run .empty).1.isOk = true := by decide +kernel
  obtain ⟨contract, last, merged⟩ := Recording.exists_of_isOk merges
  have names : ∀ statement ∈ [hostileStatement], ∀ name ∈ statement.declarations.keys,
      Text.isName name.toList = true := by decide +kernel
  have read : ArtifactName.read? "A.B" = some ⟨["A"], "B"⟩ := by decide +kernel
  have files : ∀ source ∈ [hostileStatement.file], source.fileName?.isSome := by decide +kernel
  exact ⟨contract, last, merged, (inputs_stay_out_of_code names merged read files _).2.2⟩

end QueryContract.Artifact
