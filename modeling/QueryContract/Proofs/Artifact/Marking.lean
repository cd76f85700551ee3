import QueryContract.Artifact.Text
import QueryContract.Proofs.Artifact.Scanner

/-!
The generated file with a mark on every character. It is rendered like the file itself and is that
file once the marks are taken off.
-/

namespace QueryContract.Artifact.Marked

open Literal (escapeSingle escapeDollar)
open Text.Quoted (encodeChar)

def input (source : Source) (text : String) : Marked := mark (.input source) text.toList

def descriptionLines (doc : Option Description) : List Marked :=
  match doc with
  | none => []
  | some doc =>
    [fixed "<i>(Description from " ++ input .path doc.file.text ++ fixed ")</i>", []]
      ++ (Text.lines doc.text.toList).map (mark (.input .doc)) ++ [[]]

def originLine (origin : Origin) : Marked :=
  fixed "- " ++ input .path origin.file.text ++ fixed (":" ++ Number.showNat origin.line)

def documentation (operation : Operation) : List Marked :=
  descriptionLines operation.doc ++ [fixed "<h4>Declared in:</h4>"]
    ++ operation.origins.map originLine
    ++ operation.parameters.canonical.map (fun parameter => fixed (parameterLine parameter))
    ++ [fixed (answerLine operation.kind)]

/-- A backslash that guards a mark has the kind of the star before it. -/
def guard : Marked → Marked
  | [] => []
  | (c, kind) :: rest =>
    if c = '*' ∧ (text rest).head? = some '/' then ('*', kind) :: ('\\', kind) :: guard rest
    else (c, kind) :: guard rest

def commentLine (indent : String) (line : Marked) : Marked :=
  if (guard line).isEmpty then fixed (indent ++ " *") else fixed (indent ++ " * ") ++ guard line

/-- The star that opens a comment, after its slash. -/
def opener : Marked := [('*', .opening)]

/-- The slash that closes a comment, after its star. -/
def closer : Marked := [('/', .closing)]

def commentLines (indent : String) (operation : Operation) : List Marked :=
  [fixed (indent ++ "/") ++ opener ++ fixed "*"]
    ++ (documentation operation).map (commentLine indent) ++ [fixed (indent ++ " *") ++ closer]

def singleQuoted (kind : Mark) (value : String) : Marked :=
  fixed "'" ++ mark kind (value.toList.flatMap escapeSingle) ++ fixed "'"

def doubleQuoted (name : String) : Marked :=
  fixed "\"" ++ mark (.input .operationName) ((name.toList.flatMap encodeChar).flatMap escapeDollar)
    ++ fixed "\""

def ofValue : Fallback → Marked
  | .string value => singleQuoted (.input .default) value
  | .now => singleQuoted .fixed "NOW"
  | value => fixed (Literal.ofValue value)

def signature (parameter : Parameter) : Marked :=
  let declaration := parameter.declaration
  let declared := fixed (signatureType declaration ++ " $" ++ parameter.name)
  match declaration.fallback with
  | some value =>
    if declaration.optional then declared ++ fixed " = " ++ ofValue value else declared
  | none => declared

def signatureLine (operation : Operation) : Marked :=
  fixed ("public function " ++ operation.method ++ "(")
    ++ (fixed ", ").intercalate (operation.parameters.canonical.map signature)
    ++ fixed (") : Generator " ++ openBrace)

def callLine (operation : Operation) : Marked :=
  fixed ("$this->conn->" ++ operation.kind.connectorMethod ++ "(") ++ doubleQuoted operation.name
    ++ fixed ", ["
    ++ (fixed ", ").intercalate
      (operation.parameters.canonical.map fun parameter => fixed (argument parameter))
    ++ fixed "], yield Await::RESOLVE, yield Await::REJECT);"

def methodLines (indent : String) (operation : Operation) : List Marked :=
  [fixed indent ++ signatureLine operation, fixed (indent ++ indent) ++ callLine operation,
    fixed (indent ++ indent ++ "return yield Await::ONCE;"), fixed (indent ++ closeBrace)]

def operationLines (indent : String) (operation : Operation) : List Marked :=
  [[]] ++ commentLines indent operation ++ methodLines indent operation

def headLines (sources : List Path) : List Marked :=
  [fixed "<?php", [], fixed "/" ++ opener, fixed (" * Auto-generated by " ++ toolName),
    fixed " * Created from "
      ++ (fixed ", ").intercalate (sources.map fun source => input .baseName source.baseName),
    fixed " *" ++ closer, [], fixed "declare(strict_types=1);", []]

def containerLines (contract : Contract) (name : ArtifactName) (style : Style) : List Marked :=
  let indent := style.indentation.text
  [fixed (style.container.words ++ " " ++ name.container ++ openBrace),
    fixed (indent ++ "public function __construct(private DataConnector $conn) " ++ openBrace
      ++ closeBrace)]
    ++ contract.operations.flatMap (operationLines indent) ++ [fixed closeBrace]

def lines (contract : Contract) (sources : List Path) (name : ArtifactName) (style : Style) :
    List Marked :=
  headLines sources ++ (namespaceLines name).map fixed ++ importLines.map fixed
    ++ containerLines contract name style

def file (contract : Contract) (sources : List Path) (name : ArtifactName) (style : Style) :
    Marked :=
  ((lines contract sources name style).map (· ++ fixed style.lineBreak.text)).flatten

@[simp] theorem text_input (source : Source) (chars : String) :
    (input source chars).text = chars.toList := text_mark _ _

@[simp] theorem text_intercalate (separator : Marked) (parts : List Marked) :
    text (separator.intercalate parts) = (text separator).intercalate (parts.map text) := by
  induction parts with
  | nil => rfl
  | cons first rest ih => cases rest <;> simp_all

theorem text_guard (line : Marked) : text (guard line) = guardComment (text line) := by
  induction line with
  | nil => rfl
  | cons first rest ih =>
    obtain ⟨c, kind⟩ := first
    have head : text ((c, kind) :: rest) = c :: text rest := rfl
    rw [guard, head, guardComment]
    split
    · rw [← ih]
      rfl
    · rw [← ih]
      rfl

theorem text_commentLine (indent : String) (line : Marked) (plain : String)
    (h : text line = plain.toList) :
    text (commentLine indent line) = (Artifact.commentLine indent plain).toList := by
  have guarded : text (guard line) = guardComment plain.toList := by rw [text_guard, h]
  have empty : (guard line).isEmpty = (String.ofList (guardComment plain.toList)).isEmpty := by
    rw [← guarded]
    cases guard line <;> simp [text, String.isEmpty_iff]
  rw [commentLine, Artifact.commentLine, empty]
  split
  · exact text_fixed _
  · simp only [text_append, text_fixed, guarded, String.toList_append, String.toList_ofList]

theorem text_descriptionLines (doc : Option Description) :
    (descriptionLines doc).map text = (Artifact.descriptionLines doc).map String.toList := by
  cases doc with
  | none => rfl
  | some doc =>
    simp only [descriptionLines, Artifact.descriptionLines, List.map_append, List.map_cons,
      List.map_nil, List.map_map, Function.comp_def, text_append, text_fixed, text_input, text_mark,
      String.toList_append, String.toList_ofList]
    rfl

theorem text_documentation (operation : Operation) :
    (documentation operation).map text = (Artifact.documentation operation).map String.toList := by
  simp only [documentation, Artifact.documentation, List.map_append, List.map_cons, List.map_nil,
    List.map_map, Function.comp_def, text_descriptionLines, originLine, Artifact.originLine,
    text_append, text_fixed, text_input, String.toList_append, List.append_assoc]

theorem map_text_commentLine (indent : String) {marked : List Marked} {plain : List String}
    (h : marked.map text = plain.map String.toList) :
    (marked.map (commentLine indent)).map text =
      (plain.map (Artifact.commentLine indent)).map String.toList := by
  induction marked generalizing plain with
  | nil =>
    cases plain with
    | nil => rfl
    | cons first rest => cases h
  | cons line others ih =>
    cases plain with
    | nil => cases h
    | cons first rest =>
      obtain ⟨head, tail⟩ := List.cons.inj h
      rw [List.map_cons, List.map_cons, List.map_cons, List.map_cons, ih tail,
        text_commentLine indent line first head]

theorem text_commentLines (indent : String) (operation : Operation) :
    (commentLines indent operation).map text =
      (Artifact.commentLines indent operation).map String.toList := by
  have documented := map_text_commentLine indent (text_documentation operation)
  simp only [commentLines, Artifact.commentLines, List.map_append, List.map_cons, List.map_nil,
    documented, text_append, text_fixed, String.toList_append, List.append_assoc]
  rfl

theorem text_singleQuoted (kind : Mark) (value : String) :
    text (singleQuoted kind value) = (Literal.singleQuoted value).toList := by
  simp only [singleQuoted, Literal.singleQuoted, text_append, text_fixed, text_mark,
    String.toList_ofList]
  rfl

theorem text_ofValue (value : Fallback) :
    text (ofValue value) = (Literal.ofValue value).toList := by
  cases value with
  | string value => exact text_singleQuoted _ value
  | now => exact text_singleQuoted _ "NOW"
  | _ => exact text_fixed _

theorem text_signature (parameter : Parameter) :
    text (signature parameter) = (Artifact.signature parameter).toList := by
  simp only [signature, Artifact.signature]
  cases parameter.declaration.fallback with
  | none => exact text_fixed _
  | some value =>
    cases parameter.declaration.optional with
    | false => exact text_fixed _
    | true => simp only [if_true, text_append, text_fixed, text_ofValue, String.toList_append]

theorem text_doubleQuoted (name : String) :
    text (doubleQuoted name) = (Literal.doubleQuoted name).toList := by
  simp only [doubleQuoted, Literal.doubleQuoted, Text.Quoted.write, text_append, text_fixed,
    text_mark, String.toList_ofList, List.flatMap_append, List.flatMap_cons, List.cons_append]
  rfl

theorem text_signatureLine (operation : Operation) :
    text (signatureLine operation) = (Artifact.signatureLine operation).toList := by
  unfold signatureLine Artifact.signatureLine
  simp only [List.map_map, Function.comp_def, text_append, text_fixed, text_intercalate,
    text_signature, String.toList_append, String.toList_intercalate, List.append_assoc]

theorem text_callLine (operation : Operation) :
    text (callLine operation) = (Artifact.callLine operation).toList := by
  unfold callLine Artifact.callLine
  simp only [List.map_map, Function.comp_def, text_append, text_fixed, text_intercalate,
    text_doubleQuoted, String.toList_append, String.toList_intercalate, List.append_assoc]

theorem text_methodLines (indent : String) (operation : Operation) :
    (methodLines indent operation).map text =
      (Artifact.methodLines indent operation).map String.toList := by
  simp only [methodLines, Artifact.methodLines, List.map_cons, List.map_nil, text_append,
    text_fixed, text_signatureLine, text_callLine, String.toList_append]

theorem text_operationLines (indent : String) (operation : Operation) :
    (operationLines indent operation).map text =
      (Artifact.operationLines indent operation).map String.toList := by
  unfold operationLines Artifact.operationLines
  simp only [List.map_append, List.map_cons, List.map_nil, text_commentLines, text_methodLines]
  rfl

theorem text_headLines (sources : List Path) :
    (headLines sources).map text = (Artifact.headLines sources).map String.toList := by
  unfold headLines Artifact.headLines
  simp only [List.map_cons, List.map_nil, List.map_map, Function.comp_def, text_append, text_fixed,
    text_input, text_intercalate, String.toList_append, String.toList_intercalate]
  rfl

theorem text_containerLines (contract : Contract) (name : ArtifactName) (style : Style) :
    (containerLines contract name style).map text =
      (Artifact.containerLines contract name style).map String.toList := by
  unfold containerLines Artifact.containerLines
  simp only [List.map_append, List.map_cons, List.map_nil, List.map_flatMap, text_operationLines,
    text_fixed]

theorem text_lines (contract : Contract) (sources : List Path) (name : ArtifactName)
    (style : Style) :
    (lines contract sources name style).map text =
      (Artifact.lines contract sources name style).map String.toList := by
  simp only [lines, Artifact.lines, List.map_append, List.map_map, Function.comp_def,
    text_headLines, text_containerLines, text_fixed]

theorem text_file (contract : Contract) (sources : List Path) (name : ArtifactName)
    (style : Style) :
    text (file contract sources name style) =
      (Artifact.text contract sources name style).toList := by
  let ended (line : List Char) : List Char := line ++ style.lineBreak.text.toList
  have marked : text (file contract sources name style) =
      (((lines contract sources name style).map text).map ended).flatten := by
    rw [file, text, List.map_flatten, List.map_map, List.map_map]
    refine congrArg List.flatten (List.map_congr_left fun line _ => ?_)
    rw [Function.comp_apply, Function.comp_apply, ← text, text_append, text_fixed]
  rw [marked, text_lines, Artifact.text, String.toList_join, List.flatMap_def, List.map_map,
    List.map_map]
  refine congrArg List.flatten (List.map_congr_left fun line _ => ?_)
  rw [Function.comp_apply, Function.comp_apply, String.toList_append]

end QueryContract.Artifact.Marked
