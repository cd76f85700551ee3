import QueryContract.Proofs.Contract.Recording
import QueryContract.Run.Check

/-!
The two ends of a run: it returns in one state or fails in another. A condition on both ends passes
from the steps of a run to the whole of it.
-/

namespace QueryContract.Run

variable {α β : Type} {before : Session} {returned : α → Session → Prop}
  {failed : Failure → Session → Prop}

/-- Started in a state, the run returns with the one condition or fails with the other. -/
def Ends (run : Run α) (before : Session) (returned : α → Session → Prop)
    (failed : Failure → Session → Prop) : Prop :=
  match run.run.run before with
  | (.ok value, after) => returned value after
  | (.error failure, after) => failed failure after

/-- What goes on after a run must end well from wherever the run returns. -/
theorem ends_bind {first : Run α} {next : α → Run β} {returned : β → Session → Prop}
    (h : first.Ends before (fun value later => (next value).Ends later returned failed) failed) :
    (first >>= next).Ends before returned failed := by
  rw [Ends] at h
  rw [Ends, run_bind]
  cases started : first.run.run before with
  | mk outcome later =>
    rw [started] at h
    cases outcome with
    | ok value => exact h
    | error failure => exact h

theorem Ends.mono {run : Run α} {weaker : α → Session → Prop} {weaker' : Failure → Session → Prop}
    (h : run.Ends before returned failed)
    (ok : ∀ value after, returned value after → weaker value after)
    (error : ∀ failure after, failed failure after → weaker' failure after) :
    run.Ends before weaker weaker' := by
  rw [Ends] at h ⊢
  split at h
  · exact ok _ _ h
  · exact error _ _ h

theorem ends_pure {value : α} (h : returned value before) :
    Ends (pure value) before returned failed := h

theorem ends_throw {failure : Failure} (h : failed failure before) :
    Ends (throw failure) before returned failed := h

theorem ends_get {next : Session → Run α} (h : (next before).Ends before returned failed) :
    Ends (get >>= next) before returned failed := h

theorem ends_tree {next : FileTree → Run α} (h : (next before.tree).Ends before returned failed) :
    (tree >>= next).Ends before returned failed := h

theorem ends_change {returned : Unit → Session → Prop} {path : Path}
    {edit : FileTree → Except FileFault FileTree}
    (ok : ∀ changed, edit before.tree = .ok changed → returned () { before with tree := changed })
    (error : ∀ fault, edit before.tree = .error fault → failed (.output path fault) before) :
    Ends (change path edit) before returned failed := by
  apply ends_tree
  split
  · rename_i changed edited
    exact ok changed edited
  · rename_i fault edited
    exact error fault edited

theorem ends_ofRecording {recording : Recording Conflict α}
    (ok : ∀ value log, recording.run.run before.log = (.ok value, log) →
      returned value { before with log := log })
    (error : ∀ conflict log, recording.run.run before.log = (.error conflict, log) →
      failed (.conflict conflict) { before with log := log }) :
    Ends (ofRecording recording) before returned failed := by
  rw [ofRecording]
  apply ends_get
  cases ended : recording.run.run before.log with
  | mk outcome log =>
    cases outcome with
    | ok value => exact ok value log ended
    | error conflict => exact error conflict log ended

theorem ends_resolve {sources : Sources} {returned : List Path → Session → Prop}
    (ok : ∀ files, sources.resolve before.tree = .ok files → returned files before)
    (error : ∀ fault, sources.resolve before.tree = .error fault →
      failed (.sources fault) before) :
    Ends (resolve sources) before returned failed := by
  apply ends_tree
  split
  · rename_i files found
    exact ok files found
  · rename_i fault found
    exact error fault found

theorem run_mapM_liftExcept (files : List Path) (load : Path → Except Failure Document)
    (before : Session) :
    (files.mapM fun path => loadStatements.liftExcept (load path)).run.run before =
      (files.mapM load, before) := by
  induction files with
  | nil => rfl
  | cons path rest ih =>
    rw [List.mapM_cons, List.mapM_cons, run_bind]
    cases load path with
    | ok document =>
      change (((rest.mapM fun path => loadStatements.liftExcept (load path)) >>= fun documents =>
        pure (document :: documents)).run.run before) = _
      rw [run_bind, ih]
      cases rest.mapM load <;> rfl
    | error failure => rfl

theorem ends_loadStatements {files : List Path} {returned : List Statement → Session → Prop}
    (ok : ∀ documents, files.mapM (Document.load before.tree) = .ok documents →
      returned (documents.flatMap Document.statements) before)
    (error : ∀ failure, files.mapM (Document.load before.tree) = .error failure →
      failed failure before) :
    Ends (loadStatements files) before returned failed := by
  apply ends_tree
  apply ends_bind
  rw [Ends, run_mapM_liftExcept]
  cases loaded : files.mapM (Document.load before.tree) with
  | ok documents => exact ends_pure (ok documents loaded)
  | error failure => exact error failure loaded

theorem ends_mergeFiles {files : List Path} {stripped : String}
    {returned : Contract → Session → Prop}
    (ok : ∀ documents contract log, files.mapM (Document.load before.tree) = .ok documents →
      (Contract.ofEntries stripped
        (Entry.ofStatements (documents.flatMap Document.statements))).run.run before.log =
          (.ok contract, log) → returned contract { before with log := log })
    (load : ∀ failure, files.mapM (Document.load before.tree) = .error failure →
      failed failure before)
    (conflict : ∀ found log, failed (.conflict found) { before with log := log }) :
    Ends (mergeFiles files stripped) before returned failed := by
  apply ends_bind
  apply ends_loadStatements _ load
  intro documents loaded
  exact ends_ofRecording (fun contract log merged => ok documents contract log loaded merged)
    fun found log _ => conflict found log

theorem eq_of_resolve {sources : Sources} {files : List Path} {after : Session}
    (h : (resolve sources).run.run before = (.ok files, after)) :
    after = before ∧ sources.resolve before.tree = .ok files := by
  have ends : Ends (resolve sources) before
      (fun files after => after = before ∧ sources.resolve before.tree = .ok files)
      (fun _ _ => True) :=
    ends_resolve (fun _ resolved => ⟨rfl, resolved⟩) fun _ _ => trivial
  rw [Ends, h] at ends
  exact ends

theorem run_resolve {sources : Sources} {files : List Path}
    (h : sources.resolve before.tree = .ok files) :
    (resolve sources).run.run before = (.ok files, before) := by
  have opened (next : FileTree → Run (List Path)) :
      (tree >>= next).run.run before = (next before.tree).run.run before := rfl
  rw [resolve, opened, h]
  rfl

theorem run_mergeFiles {files : List Path} {stripped : String} {documents : List Document}
    {contract : Contract} {log : NoticeLog}
    (loaded : files.mapM (Document.load before.tree) = .ok documents)
    (merged : (Contract.ofEntries stripped
      (Entry.ofStatements (documents.flatMap Document.statements))).run.run before.log =
        (.ok contract, log)) :
    (mergeFiles files stripped).run.run before = (.ok contract, { before with log := log }) := by
  have statements : (loadStatements files).run.run before =
      (.ok (documents.flatMap Document.statements), before) := by
    have opened (next : FileTree → Run (List Statement)) :
        (tree >>= next).run.run before = (next before.tree).run.run before := rfl
    rw [loadStatements, opened, run_bind, run_mapM_liftExcept, loaded]
    rfl
  have opened (next : Session → Run Contract) :
      (get >>= next).run.run before = (next before).run.run before := rfl
  rw [mergeFiles, run_bind, statements]
  change (ofRecording _).run.run before = _
  rw [ofRecording, opened, merged]
  rfl

/-- A run that merges files has read them all, and changes the log alone. -/
theorem exists_of_mergeFiles {files : List Path} {stripped : String} {contract : Contract}
    {after : Session} (h : (mergeFiles files stripped).run.run before = (.ok contract, after)) :
    ∃ documents, files.mapM (Document.load before.tree) = .ok documents ∧
      (Contract.ofEntries stripped
        (Entry.ofStatements (documents.flatMap Document.statements))).run.run before.log =
          (.ok contract, after.log) ∧
      after.tree = before.tree := by
  have ends : Ends (mergeFiles files stripped) before
      (fun contract after => ∃ documents,
        files.mapM (Document.load before.tree) = .ok documents ∧
          (Contract.ofEntries stripped
            (Entry.ofStatements (documents.flatMap Document.statements))).run.run before.log =
              (.ok contract, after.log) ∧
          after.tree = before.tree)
      (fun _ _ => True) :=
    ends_mergeFiles (fun documents _ _ loaded made => ⟨documents, loaded, made, rfl⟩)
      (fun _ _ => trivial) fun _ _ => trivial
  rw [Ends, h] at ends
  exact ends

end QueryContract.Run
