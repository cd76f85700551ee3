import QueryContract.Proofs.Artifact.Name
import QueryContract.Proofs.Files.Locating
import QueryContract.Proofs.Run.Placing

/-!
What a generation does to the file tree. A run that returns has added one file, with the
directories above it, and reports about this file; a run that fails leaves the tree as it was. Only a
length that the system does not take is found too late for this: the directories that were made by
then stay.
-/

namespace QueryContract

/-- What has happened when a request was met. -/
structure ArtifactRequest.Met (request : ArtifactRequest) (before after : Session)
    (report : ArtifactReport) (name : ArtifactName) (directory : Location) (contract : Contract) :
    Prop where
  named : ArtifactName.read? request.name = some name
  located : before.tree.locate request.directory = .ok directory
  existing : before.tree.isDirectoryAt directory = true
  resolved : request.sources.resolve before.tree = .ok report.sources
  merged : ∃ documents, report.sources.mapM (Document.load before.tree) = .ok documents ∧
    (Contract.ofEntries request.style.stripped
      (Entry.ofStatements (documents.flatMap Document.statements))).run.run before.log =
        (.ok contract, after.log)
  file : before.tree.HasFile after.tree (directory ++ name.location)
    (Artifact.text contract report.sources name request.style).toUTF8
  path : report.path = Location.path (directory ++ name.location)
  content : after.tree.content report.path =
    .ok (Artifact.text contract report.sources name request.style).toUTF8
  size : report.size = (Artifact.text contract report.sources name request.style).toUTF8.size
  operations : report.operations = contract.operations.length

/-- What is left of a request that was not met. A length that is at fault is one on the way to the
    artifact that was asked for. -/
structure ArtifactRequest.Abandoned (request : ArtifactRequest) (before after : Session)
    (failure : Failure) : Prop where
  unchanged : failure.isTooLong = false → after.tree = before.tree
  stopped : failure.isTooLong = true → ∃ name directory reached,
    ArtifactName.read? request.name = some name ∧
      before.tree.locate request.directory = .ok directory ∧
        before.tree.StopsAt (directory ++ name.location) reached ∧
          before.tree.HasDirectories after.tree reached

theorem ArtifactName.isFileName_place {tree : FileTree} {directory : Location} {text : String}
    {name : ArtifactName} (wellFormed : tree.WellFormed)
    (existing : tree.isDirectoryAt directory = true) (named : read? text = some name) :
    (directory ++ name.location).all FileTree.isFileName = true := by
  have found := FileTree.isDirectoryAt_iff.mp existing
  rw [List.all_append, wellFormed.names (by rw [found]; rfl), isFileName_location named]
  rfl

/-- What is wrong with a source has nothing to do with the place of the artifact. -/
theorem Document.isTooLong_of_mapM_load {tree : FileTree} {files : List Path} {failure : Failure}
    (h : files.mapM (load tree) = .error failure) : failure.isTooLong = false := by
  obtain ⟨_, path, _, -, -, fails⟩ := first_fault_of_mapM h
  unfold load at fails
  split at fails
  · cases fails
    rfl
  split at fails
  · cases fails
    rfl
  split at fails
  · cases fails
  · cases fails
    rfl

namespace Run

variable {before : Session} {failed : Failure → Session → Prop}

theorem ends_outputDirectory {directory : Path} {returned : Location → Session → Prop}
    (ok : ∀ location, before.tree.locate directory = .ok location →
      before.tree.isDirectoryAt location = true → returned location before)
    (error : failed (.missingOutput directory) before) :
    Ends (outputDirectory directory) before returned failed := by
  apply ends_tree
  split
  · rename_i location located
    split
    · rename_i existing
      exact ok location located existing
    · exact error
  · exact error

/-- With a name and an output directory, a generation goes on with its sources. -/
theorem generate_eq {request : ArtifactRequest} {name : ArtifactName} {directory : Location}
    (named : ArtifactName.read? request.name = some name)
    (located : before.tree.locate request.directory = .ok directory)
    (existing : before.tree.isDirectoryAt directory = true) :
    (generate request).run.run before = (do
      let files ← resolve request.sources
      let contract ← mergeFiles files request.style.stripped
      let text := Artifact.text contract files name request.style
      let target := directory ++ name.location
      place target text.toUTF8
      pure ⟨Location.path target, files, contract.operations.length, text.utf8ByteSize⟩ :
        Run ArtifactReport).run.run before := by
  have entered : (outputDirectory request.directory).run.run before = (.ok directory, before) := by
    have opened (next : FileTree → Run Location) :
        (tree >>= next).run.run before = (next before.tree).run.run before := rfl
    rw [outputDirectory, opened, located]
    simp only [existing, if_true]
    rfl
  rw [generate, named]
  simp only
  rw [run_bind, entered]

theorem ends_generate (before : Session) (wellFormed : before.tree.WellFormed)
    (request : ArtifactRequest) :
    (generate request).Ends before
      (fun report after => ∃ name directory contract,
        request.Met before after report name directory contract ∧
          after.tree.HasRoom (directory ++ name.location))
      (fun failure after => request.Abandoned before after failure) := by
  have kept {failure : Failure} {log : NoticeLog} (other : failure.isTooLong = false) :
      request.Abandoned before ⟨before.tree, log⟩ failure :=
    ⟨fun _ => rfl, fun long => absurd (other.symm.trans long) nofun⟩
  rw [generate]
  split
  · rename_i name named
    -- Up to the placing of the file the run reads the tree and changes the log alone.
    apply ends_bind
    apply ends_outputDirectory _ (kept rfl)
    intro directory located existing
    apply ends_bind
    apply ends_resolve _ fun _ _ => kept rfl
    intro files resolved
    apply ends_bind
    refine ends_mergeFiles ?_ (fun failure load => kept ?_) (fun _ _ => kept rfl)
    · intro documents contract log loaded merged
      have below : directory ++ name.location ≠ [] := by simp [ArtifactName.location]
      have names := ArtifactName.isFileName_place wellFormed existing named
      apply ends_bind
      apply (ends_place ⟨before.tree, log⟩ wellFormed names below _).mono
      · rintro _ after ⟨kept, file, room⟩
        have found := file.node (directory ++ name.location)
        rw [if_pos rfl] at found
        refine ends_pure ⟨name, directory, contract, ?_, room⟩
        exact
          { named, located, existing, resolved
            merged := ⟨documents, loaded, kept ▸ merged⟩
            file := file
            path := rfl
            content := FileTree.content_path file.wellFormed found
            size := rfl
            operations := rfl }
      · intro failure after abandoned
        refine ⟨abandoned.unchanged, fun long => ?_⟩
        obtain ⟨reached, stops, directories⟩ := abandoned.stopped long
        exact ⟨name, directory, reached, named, located, stops, directories⟩
    · exact Document.isTooLong_of_mapM_load load
  · exact ends_throw (kept rfl)

end Run

/-- A generation either meets its request or is abandoned. -/
theorem generation_met_or_abandoned (before : Session) (wellFormed : before.tree.WellFormed)
    (request : ArtifactRequest) :
    (Run.generate request).Ends before
      (fun report after => ∃ name directory contract,
        request.Met before after report name directory contract)
      (fun failure after => request.Abandoned before after failure) := by
  apply (Run.ends_generate before wellFormed request).mono _ fun _ _ abandoned => abandoned
  rintro report after ⟨name, directory, contract, met, -⟩
  exact ⟨name, directory, contract, met⟩

def sourceSession : Session where
  tree :=
    { workingDirectory := ["w"]
      entries := .ofList [(["w"], .directory),
        (["w", "q.sql"], .file "-- #\x7b a\nSELECT 1\n-- #\x7d\n".toUTF8)] }
  log := .empty

def nestedRequest : ArtifactRequest where
  directory := ⟨"./../w"⟩
  name := "A.B"
  sources := .files [⟨"q.sql"⟩]
  style := ⟨"", .lf, .tab, .interface⟩

theorem generation_of_nestedRequest :
    sourceSession.tree.WellFormed ∧ ∃ report after,
      (Run.generate nestedRequest).run.run sourceSession = (.ok report, after) ∧
      report.path = ⟨"/w/A/B.php"⟩ ∧ after.tree.node? ["w", "A"] = some .directory := by
  have wellFormed : sourceSession.tree.WellFormed := ⟨by decide +kernel, by decide +kernel⟩
  have ends := generation_met_or_abandoned sourceSession wellFormed nestedRequest
  have returns : ((Run.generate nestedRequest).run.run sourceSession).1.isOk = true := by
    decide +kernel
  refine ⟨wellFormed, ?_⟩
  rw [Run.Ends] at ends
  split at ends
  · rename_i report after run
    obtain ⟨name, directory, contract, met⟩ := ends
    have read : some ⟨["A"], "B"⟩ = some name := Eq.trans (by decide +kernel) met.named
    have located : some ["w"] = some directory :=
      Eq.trans (by decide +kernel) (congrArg Except.toOption met.located)
    cases read
    cases located
    refine ⟨report, after, run, met.path.trans (by decide), ?_⟩
    rw [met.file.node, if_neg (by decide), if_pos (by decide +kernel)]
  · rename_i failure after run
    rw [run] at returns
    cases returns

def longSegment : String := String.ofList (List.replicate 256 'Q')

def longRequest : ArtifactRequest := { nestedRequest with name := "App." ++ longSegment ++ ".Z" }

/-- The directory `App` is made before the name below it is found to be too long. -/
theorem generation_leaves_directory :
    sourceSession.tree.WellFormed ∧
      ((Run.generate longRequest).run.run sourceSession).1 =
        .error (.output ⟨"/w/App/" ++ longSegment⟩ .nameTooLong) ∧
      sourceSession.tree.node? ["w", "App"] = none ∧
      ((Run.generate longRequest).run.run sourceSession).2.tree.node? ["w", "App"] =
        some .directory := by
  have wellFormed : sourceSession.tree.WellFormed := ⟨by decide +kernel, by decide +kernel⟩
  -- The name is given by its letters, since to decode its bytes again would take long.
  have text (letters : List Char) : ("App." ++ String.ofList letters ++ ".Z").toList =
      "App.".toList ++ letters ++ ".Z".toList := by
    rw [String.toList_append, String.toList_append, @String.toList_ofList letters]
  have named : ArtifactName.read? longRequest.name = some ⟨["App", longSegment], "Z"⟩ := by
    rw [ArtifactName.read?, show longRequest.name.toList = _ from text (List.replicate 256 'Q')]
    decide +kernel
  have located : sourceSession.tree.locate longRequest.directory = .ok ["w"] := by decide +kernel
  have existing : sourceSession.tree.isDirectoryAt ["w"] = true := by decide +kernel
  rw [Run.generate_eq named located existing]
  exact ⟨wellFormed, by decide +kernel, by decide +kernel, by decide +kernel⟩

end QueryContract
