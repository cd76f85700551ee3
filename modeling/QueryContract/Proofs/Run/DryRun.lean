import QueryContract.Proofs.Artifact.Overview
import QueryContract.Proofs.Files.Resolving
import QueryContract.Proofs.Grammar.Statements
import QueryContract.Proofs.Run.Generation
import QueryContract.Proofs.Run.Provenance

/-!
A check is a dry run of a generation: with the same sources both end alike, and the file that is
written holds what the check told of it. Only a name with characters that no literal can hold is
called by another name.
-/

namespace QueryContract

open Artifact (Callable callables)

namespace Outline

/-- A method that takes the parameters and passes this name to the connector. -/
def callable (outline : Outline) (name : List UInt8) : Callable :=
  ⟨outline.method, outline.parameters, some ⟨outline.kind.connectorMethod, name⟩⟩

/-- What a check tells of an operation. -/
def told (outline : Outline) : Callable := outline.callable (Literal.utf8 outline.name.toList)

/-- What a file holds of an operation, whose name is what its literal says. -/
def written (outline : Outline) : Callable :=
  outline.callable (outline.name.toList.flatMap Literal.readBack)

theorem written_eq_told_iff (outline : Outline) :
    outline.written = outline.told ↔ ∀ c ∈ outline.name.toList, Literal.isLost c = false := by
  rw [← Literal.flatMap_readBack_eq_iff]
  simp [written, told, callable]

end Outline

/-- The report of a generation and the file that it wrote are what the check tells. -/
structure CheckReport.Foretells (found : CheckReport) (report : ArtifactReport) (after : FileTree) :
    Prop where
  sources : report.sources = found.sources
  operations : report.operations = found.operations.length
  file : ∃ text : String, after.content report.path = .ok text.toUTF8 ∧
    callables text = Artifact.constructor :: found.operations.map Outline.written ∧
      (callables text = Artifact.constructor :: found.operations.map Outline.told ↔
        ∀ outline ∈ found.operations, ∀ c ∈ outline.name.toList, Literal.isLost c = false)

namespace Run

/-- Both runs fail in one way or both return, and they leave the same notices. -/
def EndAlike (generated : Except Failure ArtifactReport × Session)
    (checked : Except Failure CheckReport × Session) : Prop :=
  generated.2.log = checked.2.log ∧
    match generated.1, checked.1 with
    | .error failure, .error other => failure = other
    | .ok report, .ok found => found.Foretells report generated.2.tree
    | _, _ => False

/-- The run does not fail for the file system when it puts its file in place. -/
def Placed (generated : Except Failure ArtifactReport × Session) : Prop :=
  ∀ path fault, generated.1 ≠ .error (.output path fault)

theorem placed_of_isOk {generated : Except Failure ArtifactReport × Session}
    (h : generated.1.isOk = true) : Placed generated := by
  intro path fault fails
  rw [fails] at h
  cases h

/-- What both runs do first they do alike. -/
theorem endAlike_bind {α : Type} {first : Run α} {next : α → Run ArtifactReport}
    {checking : α → Run CheckReport} {before : Session}
    (h : ∀ value later, first.run.run before = (.ok value, later) →
      Placed ((next value).run.run later) →
        EndAlike ((next value).run.run later) ((checking value).run.run later))
    (placed : Placed ((first >>= next).run.run before)) :
    EndAlike ((first >>= next).run.run before) ((first >>= checking).run.run before) := by
  rw [run_bind] at placed ⊢
  rw [run_bind]
  cases started : first.run.run before with
  | mk outcome later =>
    rw [started] at placed
    cases outcome with
    | ok value => exact h value later started placed
    | error failure => exact ⟨rfl, rfl⟩

end Run

section Spelling

variable {before : Session} {files : List Path} {documents : List Document} {stripped : String}
  {log last : NoticeLog} {contract : Contract}

/-- The operations of a run are named by identifiers in its code. -/
theorem spelled_of_load (loaded : files.mapM (Document.load before.tree) = .ok documents)
    (merged : (Contract.ofEntries stripped
      (Entry.ofStatements (documents.flatMap Document.statements))).run.run log =
        (.ok contract, last)) :
    ∀ operation ∈ contract.operations, Artifact.Spelled operation := by
  apply Artifact.spelled_of_ofEntries _ merged
  intro statement member
  obtain ⟨document, held, inside⟩ := List.mem_flatMap.mp member
  have named : ∀ document ∈ documents, ∀ statement ∈ document.statements,
      ∀ name ∈ statement.declarations.keys, Text.isName name.toList = true := by
    refine forall_of_mapM_eq_ok (fun path document load => ?_) loaded
    obtain ⟨text, read⟩ := Document.exists_read_of_load load
    exact Document.isName_of_read read
  exact named document held statement inside

end Spelling

namespace Run

variable {before : Session}

/-- What is left of a generation after the merging of its files, beside what is left of a check. -/
theorem endAlike_place (wellFormed : before.tree.WellFormed) {request : ArtifactRequest}
    {name : ArtifactName} (named : ArtifactName.read? request.name = some name)
    {directory : Location} (existing : before.tree.isDirectoryAt directory = true)
    {files : List Path} (found : ∀ file ∈ files, file.fileName?.isSome) {contract : Contract}
    (spelled : ∀ operation ∈ contract.operations, Artifact.Spelled operation) :
    let text := Artifact.text contract files name request.style
    let target := directory ++ name.location
    let generating : Run ArtifactReport := do
      place target text.toUTF8
      pure ⟨Location.path target, files, contract.operations.length, text.utf8ByteSize⟩
    Placed (generating.run.run before) → EndAlike (generating.run.run before)
      ((pure ⟨files, contract.operations.map Operation.outline⟩ : Run CheckReport).run.run
        before) := by
  intro text target generating placed
  have below : target ≠ [] := by simp [target, ArtifactName.location]
  have names : target.all FileTree.isFileName = true :=
    ArtifactName.isFileName_place wellFormed existing named
  have returns := ends_place before wellFormed names below text.toUTF8
  have fails := ends_place_output before target text.toUTF8
  unfold generating at placed ⊢
  rw [run_bind] at placed ⊢
  rw [Ends] at returns fails
  cases placing : (place target text.toUTF8).run.run before with
  | mk outcome after =>
    rw [placing] at placed returns fails
    cases outcome with
    | error failure =>
      obtain ⟨path, fault, same⟩ := fails
      exact absurd (congrArg Except.error same) (placed path fault)
    | ok _ =>
      obtain ⟨kept, file, -⟩ := returns
      have node := file.node target
      rw [if_pos rfl] at node
      have read := Artifact.callables_text request.style spelled found
        (Artifact.isNamePart_of_read named)
      have written : Artifact.callables text = Artifact.constructor ::
          (contract.operations.map Operation.outline).map Outline.written := by
        rw [List.map_map]
        exact read
      refine ⟨kept, rfl, (List.length_map _).symm, text, ?_, written, ?_⟩
      · exact FileTree.content_path file.wellFormed node
      · rw [written, List.cons_inj_right, List.map_inj_left]
        exact forall₂_congr fun outline _ => outline.written_eq_told_iff

theorem endAlike_generate (wellFormed : before.tree.WellFormed) {request : ArtifactRequest}
    {name : ArtifactName} (named : ArtifactName.read? request.name = some name)
    {directory : Location} (located : before.tree.locate request.directory = .ok directory)
    (existing : before.tree.isDirectoryAt directory = true)
    (placed : Placed ((generate request).run.run before)) :
    EndAlike ((generate request).run.run before)
      ((check request.sources request.style.stripped).run.run before) := by
  rw [generate_eq named located existing] at placed ⊢
  unfold check
  refine endAlike_bind (fun files later resolved remains => ?_) placed
  obtain ⟨rfl, resolved⟩ := eq_of_resolve resolved
  refine endAlike_bind (fun contract last merged places => ?_) remains
  obtain ⟨documents, loaded, made, same⟩ := exists_of_mergeFiles merged
  have found := Sources.isSome_fileName?_of_resolve wellFormed resolved
  rw [← same] at wellFormed existing
  exact endAlike_place wellFormed named existing found (spelled_of_load loaded made) places

end Run

/-- With the same sources a check and a generation end alike, unless the file cannot be put in place:
    they fail with one failure or both return, they leave the same notices, and the file holds the
    methods that the check tells, with the names of their operations as their literals say them. -/
theorem check_is_dry_run (before : Session) (wellFormed : before.tree.WellFormed)
    (request : ArtifactRequest) (named : (ArtifactName.read? request.name).isSome = true)
    (existing : before.tree.isDirectory request.directory = true)
    (placed : Run.Placed ((Run.generate request).run.run before)) :
    Run.EndAlike ((Run.generate request).run.run before)
      ((Run.check request.sources request.style.stripped).run.run before) := by
  obtain ⟨name, named⟩ := Option.isSome_iff_exists.mp named
  obtain ⟨directory, located, existing⟩ := FileTree.exists_of_isDirectory existing
  exact Run.endAlike_generate wellFormed named located existing placed

theorem dry_run_of_nestedRequest :
    sourceSession.tree.WellFormed ∧ (ArtifactName.read? nestedRequest.name).isSome = true ∧
      sourceSession.tree.isDirectory nestedRequest.directory = true ∧
      Run.Placed ((Run.generate nestedRequest).run.run sourceSession) ∧
      Run.EndAlike ((Run.generate nestedRequest).run.run sourceSession)
        ((Run.check nestedRequest.sources nestedRequest.style.stripped).run.run sourceSession) := by
  have wellFormed : sourceSession.tree.WellFormed := ⟨by decide +kernel, by decide +kernel⟩
  have named : (ArtifactName.read? nestedRequest.name).isSome = true := by decide +kernel
  have existing : sourceSession.tree.isDirectory nestedRequest.directory = true := by decide +kernel
  have returns : ((Run.generate nestedRequest).run.run sourceSession).1.isOk = true := by
    decide +kernel
  have placed := Run.placed_of_isOk returns
  exact ⟨wellFormed, named, existing, placed,
    check_is_dry_run sourceSession wellFormed nestedRequest named existing placed⟩

/-- A statement with a backspace in its name. -/
def backspaceSession : Session where
  tree :=
    { workingDirectory := ["w"]
      entries := .ofList [(["w"], .directory),
        (["w", "q.sql"], .file "-- #\x7b a\x08b\nSELECT 1\n-- #\x7d\n".toUTF8)] }
  log := .empty

theorem dry_run_tells_another_name : ∃ report found text,
    ((Run.generate nestedRequest).run.run backspaceSession).1 = .ok report ∧
      ((Run.check nestedRequest.sources nestedRequest.style.stripped).run.run
        backspaceSession).1 = .ok found ∧
      found.operations.map Outline.name = ["a\x08b"] ∧
      ((Run.generate nestedRequest).run.run backspaceSession).2.tree.content report.path =
        .ok text.toUTF8 ∧
      callables text ≠ Artifact.constructor :: found.operations.map Outline.told := by
  have wellFormed : backspaceSession.tree.WellFormed := ⟨by decide +kernel, by decide +kernel⟩
  have named : ArtifactName.read? nestedRequest.name = some ⟨["A"], "B"⟩ := by decide +kernel
  have located : backspaceSession.tree.locate nestedRequest.directory = .ok ["w"] := by
    decide +kernel
  have existing : backspaceSession.tree.isDirectoryAt ["w"] = true := by decide +kernel
  have returns : ((Run.generate nestedRequest).run.run backspaceSession).1.isOk = true := by
    decide +kernel
  have tells : ((Run.check nestedRequest.sources nestedRequest.style.stripped).run.run
      backspaceSession).1 = .ok ⟨[⟨"q.sql"⟩], [⟨"a\x08b", "aB", .select, [], 1⟩]⟩ := by
    decide +kernel
  have placed := Run.placed_of_isOk returns
  have alike := (Run.endAlike_generate wellFormed named located existing placed).2
  rw [tells] at alike ⊢
  cases generated : ((Run.generate nestedRequest).run.run backspaceSession).1 with
  | error failure =>
    rw [generated] at returns
    cases returns
  | ok report =>
    rw [generated] at alike
    obtain ⟨text, content, -, named⟩ := alike.file
    refine ⟨report, _, text, rfl, rfl, rfl, content, fun same => ?_⟩
    have kept := named.mp same _ List.mem_cons_self '\x08' (by decide)
    cases kept

end QueryContract
