import QueryContract.Proofs.Artifact.Overview
import QueryContract.Proofs.Grammar.Statements

/-!
The parameters of a generated method, read from its signature. They are names, no two of them are
the same, and the name that declarations cannot have is not among them.
-/

namespace QueryContract.Artifact

/-- The variables that the generated language has in every scope. -/
def autoGlobals : List String :=
  ["GLOBALS", "_SERVER", "_GET", "_POST", "_FILES", "_COOKIE", "_SESSION", "_REQUEST", "_ENV"]

/-- The generated language takes no parameter of this name. -/
def isRefused (name : String) : Bool := name = "this" || autoGlobals.contains name

/-- The signature of a method is the head of one function, whose body is still to come. -/
theorem callables_signatureLine (style : Style) {operation : Operation} (h : Spelled operation) :
    callables (style.indentation.text ++ signatureLine operation) =
      [⟨operation.method, operation.parameters.names, none⟩] := by
  have indent := fills_indentation style.indentation
  have filler : IsGap (skim style.indentation.text.toList) := indent.gap
  have brace : (signatureLine operation).toList = (header operation).toList ++ ['{'] :=
    String.toList_append
  have sentence := splitOnP_sentence (declares_header h).avoids filler (by decide : '{' ∈ ends) []
  obtain ⟨declared, found, method, parameters⟩ := (declares_header h).reads _ filler
  rw [List.append_nil] at sentence
  rw [callables, String.toList_append, brace, skim_append indent.scan, read, sentence,
    readSentences, found]
  simp only [method, parameters]
  rfl

theorem signatureLine_mem_lines {contract : Contract} {operation : Operation}
    (h : operation ∈ contract.operations) (sources : List Path) (name : ArtifactName)
    (style : Style) :
    style.indentation.text ++ signatureLine operation ∈ lines contract sources name style := by
  have method : style.indentation.text ++ signatureLine operation ∈
      operationLines style.indentation.text operation :=
    List.mem_append_right _ List.mem_cons_self
  have container := List.mem_flatMap_of_mem h method
  exact List.mem_append_right _
    (List.mem_append_left _ (List.mem_append_right _ container))

/-- Each operation of a file has a line with its signature. The parameters that are read from this
    line are names, all different, and one of them is refused exactly if it is an auto-global. -/
theorem parameters_taken_unless_auto_global {texts : List (Path × String)}
    {documents : List Document}
    (read : texts.mapM (fun text => Document.read text.1 text.2) = .ok documents)
    {stripped : String} {log last : NoticeLog} {contract : Contract}
    (merged : (Contract.ofEntries stripped
      (Entry.ofStatements (documents.flatMap Document.statements))).run.run log =
        (.ok contract, last)) (sources : List Path) (name : ArtifactName) (style : Style) :
    ∀ operation ∈ contract.operations, ∃ parameters,
      style.indentation.text ++ signatureLine operation ∈ lines contract sources name style ∧
        callables (style.indentation.text ++ signatureLine operation) =
          [⟨operation.method, parameters, none⟩] ∧
        parameters.Nodup ∧ (∀ parameter ∈ parameters, Text.isName parameter.toList = true) ∧
        ∀ parameter ∈ parameters, isRefused parameter = true ↔ parameter ∈ autoGlobals := by
  have named : ∀ document ∈ documents, ∀ statement ∈ document.statements,
      ∀ name ∈ statement.declarations.keys,
        Text.isName name.toList = true ∧ name ≠ Reader.reservedName := by
    refine forall_of_mapM_eq_ok (fun text document done => ?_) read
    exact fun statement inside name key =>
      ⟨Document.isName_of_read done statement inside name key,
        Document.ne_reservedName_of_read done statement inside name key⟩
  have declared : ∀ statement ∈ documents.flatMap Document.statements,
      ∀ name ∈ statement.declarations.keys,
        Text.isName name.toList = true ∧ name ≠ Reader.reservedName := by
    intro statement member
    obtain ⟨document, held, inside⟩ := List.mem_flatMap.mp member
    exact named document held statement inside
  intro operation member
  have spelled := spelled_of_ofEntries
    (fun statement held name key => (declared statement held name key).1) merged operation member
  obtain ⟨statement, held, pairs⟩ := Contract.exists_base_of_ofEntries merged operation member
  have keys : operation.parameters.names = statement.declarations.keys := by
    rw [Association.keys, ← pairs, List.map_map]
    rfl
  refine ⟨operation.parameters.names, signatureLine_mem_lines member sources name style,
    callables_signatureLine style spelled, keys ▸ statement.declarations.distinct, ?_, ?_⟩
  · exact fun parameter key => (declared statement held parameter (keys ▸ key)).1
  · intro parameter key
    have free : parameter ≠ "this" := (declared statement held parameter (keys ▸ key)).2
    simp [isRefused, free]

/-- One statement in two files, with names that are close to refused ones. -/
def sharedTexts : List (Path × String) :=
  [(⟨"a.sql"⟩, "-- #\x7b get\n-- #:_get int 1\n-- #:This ?string\nSELECT 1\n-- #\x7d\n"),
    (⟨"b.sql"⟩, "-- #\x7b get\n-- #:This ?string\n-- #:ENV bool\nSELECT 1\n-- #\x7d\n")]

def sharedDocuments : List Document :=
  let nullable : Declaration := ⟨.string, true, false, false, none⟩
  [⟨⟨"a.sql"⟩, none, [⟨"get", "SELECT 1", .ofList [("_get", ⟨.int, false, false, true,
      some (.int 1)⟩), ("This", nullable)], "", ⟨"a.sql"⟩, 1⟩]⟩,
    ⟨⟨"b.sql"⟩, none, [⟨"get", "SELECT 1", .ofList [("This", nullable),
      ("ENV", ⟨.bool, false, false, false, none⟩)], "", ⟨"b.sql"⟩, 1⟩]⟩]

theorem parameters_of_sharedTexts :
    sharedTexts.mapM (fun text => Document.read text.1 text.2) = .ok sharedDocuments ∧
      ∃ contract last, (Contract.ofEntries ""
          (Entry.ofStatements (sharedDocuments.flatMap Document.statements))).run.run .empty =
            (.ok contract, last) ∧
        ∃ operation ∈ contract.operations, ∃ parameters,
          callables ("\t" ++ signatureLine operation) = [⟨operation.method, parameters, none⟩] ∧
            parameters.Nodup ∧ ∀ parameter ∈ parameters,
              isRefused parameter = true ↔ parameter ∈ autoGlobals := by
  have read : sharedTexts.mapM (fun text => Document.read text.1 text.2) = .ok sharedDocuments := by
    decide +kernel
  let merging : Recording Conflict Contract :=
    Contract.ofEntries "" (Entry.ofStatements (sharedDocuments.flatMap Document.statements))
  have merges : (merging.run.run .empty).1.isOk = true := by decide +kernel
  obtain ⟨contract, last, merged⟩ := Recording.exists_of_isOk merges
  have names : contract.operations.map Operation.name = ["get"] := by
    rw [Contract.names_of_ofEntries merged]
    decide +kernel
  obtain ⟨operation, member, -⟩ := List.mem_map.mp (names ▸ List.mem_singleton_self "get")
  obtain ⟨parameters, -, found, distinct, -, refused⟩ :=
    parameters_taken_unless_auto_global read merged [] ⟨[], "Q"⟩ ⟨"", .lf, .tab, .trait⟩
      operation member
  exact ⟨read, contract, last, merged, operation, member, parameters, found, distinct, refused⟩

/-- A variable of this name is declared and becomes a parameter. -/
theorem parameter_is_auto_global :
    ((Document.read ⟨"q.sql"⟩ "-- #\x7b a\n-- #:_GET string\nSELECT 1\n-- #\x7d\n").toOption.bind
      fun document =>
        ((Contract.ofEntries "" (Entry.ofStatements document.statements)).run.run
          .empty).1.toOption.map fun contract => contract.operations.map fun operation =>
            callables (signatureLine operation)) = some [[⟨"a", ["_GET"], none⟩]] ∧
    isRefused "_GET" = true := by
  decide +kernel

end QueryContract.Artifact
