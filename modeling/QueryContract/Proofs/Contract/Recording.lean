import QueryContract.Contract.Notice

/-!
Recordings opened up: a recording that goes on after another one starts from the log that the first
one left. Notices never decide how a recording ends, so its outcome is that of a plain computation,
and the log that it leaves is the one before it with its own notices at the end.
-/

namespace QueryContract

variable {ε α β σ : Type}

/-- What goes on after a computation starts from the state that the computation left. -/
theorem run_bind (first : ExceptT ε (StateM σ) α) (next : α → ExceptT ε (StateM σ) β) (state : σ) :
    (first >>= next).run.run state =
      match first.run.run state with
      | (.ok value, later) => (next value).run.run later
      | (.error fault, later) => (.error fault, later) := by
  rw [ExceptT.run_bind, StateT.run_bind]
  change (match first.run.run state with | (outcome, later) => _) = _
  cases first.run.run state with
  | mk outcome later => cases outcome <;> rfl

theorem run_bind_eq_ok {first : ExceptT ε (StateM σ) α} {next : α → ExceptT ε (StateM σ) β}
    {state last : σ} {value : β} (h : (first >>= next).run.run state = (.ok value, last)) :
    ∃ middle later, first.run.run state = (.ok middle, later) ∧
      (next middle).run.run later = (.ok value, last) := by
  rw [run_bind] at h
  cases started : first.run.run state with
  | mk outcome later =>
    rw [started] at h
    cases outcome with
    | ok middle => exact ⟨middle, later, rfl, h⟩
    | error fault => cases h

namespace NoticeLog

/-- The log with further notices at its end. -/
def extend (log : NoticeLog) (notices : List Notice) : NoticeLog := ⟨log.notices ++ notices⟩

@[simp] theorem extend_nil (log : NoticeLog) : log.extend [] = log := by
  rw [extend, List.append_nil]

theorem extend_append (log : NoticeLog) (earlier later : List Notice) :
    log.extend (earlier ++ later) = (log.extend earlier).extend later := by
  rw [extend, extend, extend, List.append_assoc]

theorem extend_eq_self_iff {log : NoticeLog} {notices : List Notice} :
    log.extend notices = log ↔ notices = [] := by
  constructor
  · intro same
    exact List.append_right_eq_self.mp (congrArg NoticeLog.notices same)
  · rintro rfl
    exact log.extend_nil

end NoticeLog

namespace Recording

theorem exists_of_isOk {recording : Recording ε α} {log : NoticeLog}
    (h : (recording.run.run log).1.isOk = true) :
    ∃ value last, recording.run.run log = (.ok value, last) := by
  cases ended : recording.run.run log with
  | mk outcome last =>
    rw [ended] at h
    cases outcome with
    | ok value => exact ⟨value, last, rfl⟩
    | error fault => cases h

/-- The recording ends in this outcome whatever the log holds. -/
def Answers (recording : Recording ε α) (outcome : Except ε α) : Prop :=
  ∀ log, (recording.run.run log).1 = outcome

/-- Whatever the log holds, the recording ends in this outcome and adds these notices. -/
def Leaves (recording : Recording ε α) (outcome : Except ε α) (notices : List Notice) : Prop :=
  ∀ log, recording.run.run log = (outcome, log.extend notices)

theorem Leaves.answers {recording : Recording ε α} {outcome : Except ε α} {notices : List Notice}
    (h : recording.Leaves outcome notices) : recording.Answers outcome := by
  intro log
  rw [h log]

/-- The notices of what goes on after a computation, if anything does. -/
def following (outcome : Except ε α) (notices : α → List Notice) : List Notice :=
  match outcome with
  | .ok value => notices value
  | .error _ => []

/-- The notices of checks one after another, up to the first that fails. -/
def noticesOfAll (check : α → Except ε β) (notices : α → List Notice) : List α → List Notice
  | [] => []
  | item :: rest => notices item ++ following (check item) fun _ => noticesOfAll check notices rest

/-- The notices of steps one after another, up to the first that fails. -/
def noticesOfRun (step : σ → α → Except ε σ) (notices : σ → α → List Notice) (state : σ) :
    List α → List Notice
  | [] => []
  | item :: rest =>
    notices state item ++
      following (step state item) fun next => noticesOfRun step notices next rest

theorem leaves_pure (value : α) : Leaves (pure value : Recording ε α) (.ok value) [] := by
  intro log
  rw [NoticeLog.extend_nil]
  rfl

theorem Leaves.bind_ok {first : Recording ε α} {next : α → Recording ε β} {value : α}
    {outcome : Except ε β} {notices later : List Notice} (hf : first.Leaves (.ok value) notices)
    (hn : (next value).Leaves outcome later) :
    (first >>= next).Leaves outcome (notices ++ later) := by
  intro log
  rw [run_bind, hf log, NoticeLog.extend_append]
  exact hn _

theorem Leaves.bind_error {first : Recording ε α} {fault : ε} {notices : List Notice}
    (hf : first.Leaves (.error fault) notices) (next : α → Recording ε β) :
    (first >>= next).Leaves (.error fault) notices := by
  intro log
  rw [run_bind, hf log]

theorem Leaves.bind {first : Recording ε α} {next : α → Recording ε β} {outcome : Except ε α}
    {after : α → Except ε β} {notices : List Notice} {later : α → List Notice}
    (hf : first.Leaves outcome notices)
    (hn : ∀ value, (next value).Leaves (after value) (later value)) :
    (first >>= next).Leaves (outcome >>= after) (notices ++ following outcome later) := by
  cases outcome with
  | ok value => exact hf.bind_ok (hn value)
  | error fault =>
    rw [following, List.append_nil]
    exact hf.bind_error next

theorem Leaves.bind_pure {first : Recording ε α} {outcome : Except ε α} {notices : List Notice}
    (hf : first.Leaves outcome notices) (result : α → β) :
    (first >>= fun value => pure (result value)).Leaves
      (outcome >>= fun value => pure (result value)) notices := by
  have added := hf.bind fun value => leaves_pure (result value)
  have none : following outcome (fun _ => []) = [] := by cases outcome <;> rfl
  rwa [none, List.append_nil] at added

theorem Leaves.mapM {check : α → Recording ε β} {plain : α → Except ε β}
    {notices : α → List Notice} (h : ∀ item, (check item).Leaves (plain item) (notices item))
    (items : List α) :
    Leaves (items.mapM check) (items.mapM plain) (noticesOfAll plain notices items) := by
  induction items with
  | nil => exact leaves_pure []
  | cons item rest ih =>
    rw [List.mapM_cons, List.mapM_cons]
    exact (h item).bind fun value => ih.bind_pure fun values => value :: values

theorem Leaves.foldlM {step : σ → α → Recording ε σ} {plain : σ → α → Except ε σ}
    {notices : σ → α → List Notice}
    (h : ∀ state item, (step state item).Leaves (plain state item) (notices state item))
    (items : List α) (state : σ) :
    Leaves (items.foldlM step state) (items.foldlM plain state)
      (noticesOfRun plain notices state items) := by
  induction items generalizing state with
  | nil => exact leaves_pure state
  | cons item rest ih =>
    rw [List.foldlM_cons, List.foldlM_cons]
    exact (h state item).bind fun next => ih next

/-- Steps that never fail leave the notices of all of them. -/
theorem Leaves.foldl {step : σ → α → Recording ε σ} {plain : σ → α → σ} {notices : α → List Notice}
    (h : ∀ state item, (step state item).Leaves (.ok (plain state item)) (notices item))
    (items : List α) (state : σ) :
    Leaves (items.foldlM step state) (.ok (items.foldl plain state)) (items.flatMap notices) := by
  induction items generalizing state with
  | nil => exact leaves_pure state
  | cons item rest ih =>
    rw [List.foldlM_cons, List.flatMap_cons]
    exact (h state item).bind fun next => ih next

theorem noticesOfAll_of_ok {check : α → Except ε β} {notices : α → List Notice} {items : List α}
    (h : ∀ item ∈ items, ∃ value, check item = .ok value) :
    noticesOfAll check notices items = items.flatMap notices := by
  induction items with
  | nil => rfl
  | cons item rest ih =>
    obtain ⟨value, passes⟩ := h item List.mem_cons_self
    have later := ih fun other member => h other (List.mem_cons_of_mem _ member)
    rw [noticesOfAll, passes, following, later, List.flatMap_cons]

end Recording

end QueryContract
