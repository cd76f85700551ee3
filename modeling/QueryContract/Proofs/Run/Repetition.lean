import QueryContract.Proofs.Run.Generation
import QueryContract.Proofs.Run.Rereading

/-!
A generation that is made again changes nothing: it reads what the first one read, and it puts the
same text in the place of itself.
-/

namespace QueryContract

theorem ArtifactName.undeclared_location (name : ArtifactName) (directory : Location) :
    Sources.Undeclared (directory ++ name.location) := by
  intro last found
  have ending : (directory ++ name.location).getLast? = some (name.container ++ ".php") := by
    rw [location, ← List.append_assoc, List.getLast?_concat]
  obtain rfl : name.container ++ ".php" = last := Option.some.inj (ending.symm.trans found)
  have extension : ∀ ending, Sources.extension? (name.container ++ ".php").toList = some ending →
      ending = "php".toList := by
    intro ending h
    rw [Sources.extension?] at h
    split at h
    · rw [← Option.some.inj h]
      simp [String.toList_append]
    · cases h
  rw [Sources.isDeclarationName, Bool.eq_false_iff]
  intro declares
  obtain ⟨ending, h, same⟩ := (Option.any_eq_true _ _).mp declares
  rw [extension ending h] at same
  revert same
  decide

theorem Document.exists_content_of_load {tree : FileTree} {path : Path} {document : Document}
    (h : load tree path = .ok document) : ∃ bytes, tree.content path = .ok bytes := by
  unfold load at h
  split at h
  · cases h
  · rename_i bytes read
    exact ⟨bytes, read⟩

namespace Run

variable {before after : Session} {request : ArtifactRequest} {report : ArtifactReport}

end Run

namespace ArtifactRequest.Met

variable {request : ArtifactRequest} {before after : Session} {report : ArtifactReport}
  {name : ArtifactName} {directory : Location} {contract : Contract}
  (met : request.Met before after report name directory contract)
include met

theorem placed : after.tree.node? (directory ++ name.location) =
    some (.file (Artifact.text contract report.sources name request.style).toUTF8) := by
  rw [met.file.node, if_pos rfl]

theorem report_eq (text : String)
    (h : Artifact.text contract report.sources name request.style = text) :
    (⟨Location.path (directory ++ name.location), report.sources, contract.operations.length,
      text.utf8ByteSize⟩ : ArtifactReport) = report := by
  obtain ⟨path, sources, operations, size⟩ := report
  obtain rfl : path = Location.path (directory ++ name.location) := met.path
  obtain rfl : operations = contract.operations.length := met.operations
  obtain rfl : size = text.utf8ByteSize := h ▸ met.size
  rfl

theorem apart (wellFormed : before.tree.WellFormed)
    (spare : request.sources.Spare before.tree report.path) :
    ∀ file ∈ report.sources, before.tree.locate file ≠ .ok (directory ++ name.location) :=
  Sources.locate_ne_of_spare wellFormed met.file.free (name.undeclared_location directory)
    (met.path ▸ spare) met.resolved

theorem load_again
    (apart : ∀ file ∈ report.sources, before.tree.locate file ≠ .ok (directory ++ name.location))
    {documents : List Document}
    (loaded : report.sources.mapM (Document.load before.tree) = .ok documents) :
    report.sources.mapM (Document.load after.tree) = .ok documents := by
  refine mapM_congr_of_ok (fun file member document read => ?_) loaded
  obtain ⟨bytes, content⟩ := Document.exists_content_of_load read
  have kept := met.file.content_of_apart content (apart file member)
  rw [← read, Document.load, Document.load, kept, content]

theorem again (room : after.tree.HasRoom (directory ++ name.location))
    (apart : ∀ file ∈ report.sources, before.tree.locate file ≠ .ok (directory ++ name.location)) :
    (Run.generate request).run.run ⟨after.tree, before.log⟩ = (.ok report, after) := by
  let again : Session := ⟨after.tree, before.log⟩
  let text := Artifact.text contract report.sources name request.style
  obtain ⟨documents, loaded, merged⟩ := met.merged
  have existing : again.tree.isDirectoryAt directory = true :=
    FileTree.isDirectoryAt_iff.mpr
      (met.file.node?_directory (FileTree.isDirectoryAt_iff.mp met.existing))
  have located : again.tree.locate request.directory = .ok directory :=
    met.file.locate met.located
  have undeclared := name.undeclared_location directory
  have resolves : (Run.resolve request.sources).run.run again = (.ok report.sources, again) :=
    Run.run_resolve (Sources.resolve_hasFile met.file undeclared met.resolved)
  have merges : (Run.mergeFiles report.sources request.style.stripped).run.run again =
      (.ok contract, after) := Run.run_mergeFiles (met.load_again apart loaded) merged
  have below : directory ++ name.location ≠ [] := by simp [ArtifactName.location]
  have places : (Run.place (directory ++ name.location) text.toUTF8).run.run after =
      (.ok (), after) := Run.run_place_again met.file.wellFormed below room met.placed
  change (Run.generate request).run.run again = _
  rw [Run.generate_eq met.named located existing, run_bind, resolves]
  simp only
  rw [run_bind, merges]
  simp only
  rw [run_bind, places]
  exact congrArg (fun report => (Except.ok report, after)) (met.report_eq text rfl)

end ArtifactRequest.Met

end QueryContract
