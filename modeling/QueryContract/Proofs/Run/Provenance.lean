import QueryContract.Proofs.Contract.Provenance
import QueryContract.Proofs.Files.Resolving
import QueryContract.Proofs.Grammar.Documents
import QueryContract.Proofs.Run.Ending

/-!
No statement is lost between the files of a run and its contract. The reader gives the statements of
a file different names, the files of a run are different paths, and so each statement is kept.
-/

namespace QueryContract

namespace Document

variable {path : Path} {document : Document}

theorem ofOneFile_of_read {text : String} (h : read path text = .ok document) :
    document.path = path ∧ document.OfOneFile := by
  obtain ⟨forest, -, accepted, rfl⟩ := read_eq_ok_iff.mp h
  refine ⟨rfl, fun statement member => ?_, ?_⟩
  · obtain ⟨group, -, rfl⟩ := List.mem_map.mp member
    rfl
  · rw [forest.names_document path]
    exact accepted.distinct

theorem exists_read_of_load {tree : FileTree} (h : load tree path = .ok document) :
    ∃ text, read path text = .ok document := by
  unfold load at h
  split at h
  · cases h
  split at h
  · cases h
  split at h
  · rename_i read
    cases h
    exact ⟨_, read⟩
  · cases h

theorem ofOneFile_of_load {tree : FileTree} (h : load tree path = .ok document) :
    document.path = path ∧ document.OfOneFile := by
  obtain ⟨text, read⟩ := exists_read_of_load h
  exact ofOneFile_of_read read

end Document

/-- A run that merges its files keeps every statement of them, each where its file declares it. -/
theorem statements_are_kept (before after : Session) (wellFormed : before.tree.WellFormed)
    (sources : Sources) (stripped : String) (files : List Path) (contract : Contract)
    (resolved : sources.resolve before.tree = .ok files)
    (merged : (Run.mergeFiles files stripped).run.run before = (.ok contract, after)) :
    ∃ documents, files.mapM (Document.load before.tree) = .ok documents ∧
      documents.map Document.path = files ∧ contract.Keeps documents := by
  obtain ⟨documents, loaded, made, -⟩ := Run.exists_of_mergeFiles merged
  have paths : documents.map Document.path = files :=
    map_of_mapM_eq_ok (fun _ _ read => (Document.ofOneFile_of_load read).1) loaded
  have each : ∀ document ∈ documents, document.OfOneFile :=
    forall_of_mapM_eq_ok (fun _ _ read => (Document.ofOneFile_of_load read).2) loaded
  have apart := Sources.pairwise_resolve wellFormed resolved
  rw [← paths, List.pairwise_map] at apart
  exact ⟨documents, loaded, paths, Contract.keeps_of_ofEntries each apart made⟩

def librarySession : Session where
  tree :=
    { workingDirectory := ["w"]
      entries := .ofList [(["w"], .directory), (["w", "q"], .directory),
        (["w", "q", "b.sql"], .file "-- #\x7b list\nSELECT 1\n-- #\x7d\n".toUTF8),
        (["w", "a.sql"], .file "\n-- #\x7b list\nSELECT 2\n-- #\x7d\n".toUTF8)] }
  log := .empty

theorem statements_of_librarySession :
    let files : List Path := [⟨"q//b.sql"⟩, ⟨"a.sql"⟩]
    librarySession.tree.WellFormed ∧
      (Sources.files [⟨"q//b.sql"⟩, ⟨"a.sql"⟩, ⟨"q/b.sql"⟩]).resolve librarySession.tree =
        .ok files ∧
      ∃ contract after documents,
        (Run.mergeFiles files "").run.run librarySession = (.ok contract, after) ∧
          documents.map Document.path = files ∧ contract.Keeps documents := by
  intro files
  have wellFormed : librarySession.tree.WellFormed := ⟨by decide +kernel, by decide +kernel⟩
  have resolved : (Sources.files [⟨"q//b.sql"⟩, ⟨"a.sql"⟩, ⟨"q/b.sql"⟩]).resolve
      librarySession.tree = .ok files := by
    decide +kernel
  have returns : ((Run.mergeFiles files "").run.run librarySession).1.isOk = true := by
    decide +kernel
  refine ⟨wellFormed, resolved, ?_⟩
  cases merged : (Run.mergeFiles files "").run.run librarySession with
  | mk outcome after =>
    rw [merged] at returns
    cases outcome with
    | error failure => cases returns
    | ok contract =>
      obtain ⟨documents, -, paths, keeps⟩ := statements_are_kept librarySession after wellFormed
        _ _ _ contract resolved merged
      exact ⟨contract, after, documents, rfl, paths, keeps⟩

end QueryContract
