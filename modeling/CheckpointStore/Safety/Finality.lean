import CheckpointStore.Runs.Routine
import CheckpointStore.Safety.Bookkeeping
import CheckpointStore.Safety.Inventory

/-!
# Lifecycles only move forward

What every operation does to the lifecycle of a checkpoint (`step_moves`): it is committed by a
publication, retired, and deleted by a sweep, and nothing undoes this. A restart keeps it as far as
the state file is up to date, so the restarts considered here load a save that was made after the
last change of a lifecycle (`RestartsCurrent`); an older save brings deleted checkpoints back.
-/

namespace CheckpointStore

open Foundation Foundation.Procedure Foundation.UnorderedMap

variable {W : Type}

/-- The lifecycle of a checkpoint, if there is a record of it. -/
def Store.lifecycle (store : Store W) (id : CheckpointId) : Option CheckpointLifecycle :=
  (store.checkpoints.find id).map CheckpointRecord.lifecycle

/-- How the lifecycle of a checkpoint may change in one step. -/
inductive Moves : Option CheckpointLifecycle → Option CheckpointLifecycle → Prop where
  | stays (lifecycle : Option CheckpointLifecycle) : Moves lifecycle lifecycle
  | commits : Moves none (some .committed)
  | retires : Moves (some .committed) (some .retired)
  | deletes : Moves (some .committed) (some .deleted)
  | deletesRetired : Moves (some .retired) (some .deleted)

theorem Moves.of_eq {before after : Option CheckpointLifecycle} (h : after = before) :
    Moves before after := h ▸ .stays before

/-- Deletion is final. -/
theorem Moves.deleted {after : Option CheckpointLifecycle} (h : Moves (some .deleted) after) :
    after = some .deleted := by
  cases h
  rfl

/-- The records of a store are committed, retired or deleted. -/
def AllSettled (store : Store W) : Prop :=
  ∀ id lifecycle, store.lifecycle id = some lifecycle → lifecycle.Settled

/-- A settled lifecycle stays settled. -/
theorem Moves.settled {before after : Option CheckpointLifecycle} (h : Moves before after)
    (hbefore : ∀ lifecycle, before = some lifecycle → lifecycle.Settled) :
    ∀ lifecycle, after = some lifecycle → lifecycle.Settled := by
  rintro lifecycle rfl
  cases h with
  | stays => exact hbefore lifecycle rfl
  | commits => exact .inl rfl
  | retires => exact .inr (.inl rfl)
  | deletes | deletesRetired => exact .inr (.inr rfl)

/-! ## Operations that keep every lifecycle -/

/-- The lifecycles are the same. -/
def SameLifecycles (s s' : System W) : Prop :=
  ∀ id, s'.store.lifecycle id = s.store.lifecycle id

theorem SameLifecycles.trans_find {s₀ s s' : System W} (hs : SameLifecycles s₀ s)
    (h : ∀ id, (s'.store.checkpoints.find id).map CheckpointRecord.lifecycle =
      (s.store.checkpoints.find id).map CheckpointRecord.lifecycle) : SameLifecycles s₀ s' :=
  fun id => (h id).trans (hs id)

/-- Routine steps change no lifecycle. -/
theorem routine_invariant_lifecycles (s₀ : System W) :
    RoutineInvariant fun s => SameLifecycles s₀ s where
  called hs _ _ _ := hs
  observed _ hs := hs
  drawn hs := hs
  planned _ hs := hs
  judged _ _ hs := hs.trans_find (map_find_modify fun _ _ => rfl)
  judgedChunk _ _ _ hs := hs.trans_find (map_find_modify fun _ _ => rfl)
  failed hs := hs
  restored _ _ _ hs := hs
  clocked _ hs := hs
  policySet _ hs := hs
  bootSet _ hs := hs
  gcPlanned _ hs := hs
  filed _ hs := hs
  outside _ hs := hs
  rehashed hrehashed hs := by
    cases hrehashed with
    | intro _ _ hcheckpoints =>
        exact hs.trans_find fun id => congrArg _ (hcheckpoints.find_eq id).symm

theorem same_lifecycles_quarantine {s₀ s : System W} (id : CheckpointId) (rid : ReplicaId)
    (rd : ReplicaDescriptor) (hs : SameLifecycles s₀ s) :
    SameLifecycles s₀ { s with store := quarantine id rid rd s.store } := by
  unfold quarantine
  split
  · exact hs.trans_find (map_find_modify fun _ _ => rfl)
  · exact hs

/-- With every record settled, resetting the authority changes none. -/
theorem find_authority_reset {store : Store W} (h : AllSettled store) (id : CheckpointId) :
    (authorityReset store).checkpoints.find id = store.checkpoints.find id := by
  show (store.checkpoints.mapValues _).find id = _
  rw [find_map_values]
  cases hfind : store.checkpoints.find id with
  | none => rfl
  | some rec =>
      have hsettled : rec.lifecycle.Settled := h id _ (by rw [Store.lifecycle, hfind]; rfl)
      have hdone : ¬ (rec.lifecycle = .writing ∨ rec.lifecycle = .creating) := by
        rcases hsettled with heq | heq | heq <;> simp [heq]
      rw [Option.map_some, CheckpointRecord.authorityReset, if_neg hdone]

theorem lifecycle_authority_reset {store : Store W} (h : AllSettled store) (id : CheckpointId) :
    (authorityReset store).lifecycle id = store.lifecycle id := by
  rw [Store.lifecycle, find_authority_reset h, Store.lifecycle]

/-! ## Retirement, publication and collection -/

/-- Retiring moves one committed checkpoint. -/
theorem moves_retire (env : Env) (id id' : CheckpointId) (s : System W) :
    Moves (s.store.lifecycle id') ((finalState (retire env id s)).store.lifecycle id') := by
  refine post_final
    (P := fun _ (s' : System W) => Moves (s.store.lifecycle id') (s'.store.lifecycle id')) ?_
  refine (post_retire env id s).mono (fun _ s' hs' => ?_) (by rintro _ _ rfl; exact .stays _)
  cases hs' with
  | @intro rec _ _ hfind hcommitted =>
      show Moves _ (((retireRecord id s.store).checkpoints.find id').map _)
      rw [retireRecord, find_modify, Store.lifecycle]
      by_cases hid : id' = id
      · rw [if_pos hid, hid, hfind, Option.map_some, Option.map_some, Option.map_some, hcommitted]
        exact .retires
      · rw [if_neg hid]
        exact .stays _

/-- A publication commits a new checkpoint. -/
theorem Published.moves {env : Env} {descriptor : CheckpointDescriptor} {data : Bytes}
    {s s' : System W} (h : Published env descriptor data s s') (id : CheckpointId) :
    Moves (s.store.lifecycle id) (s'.store.lifecycle id) := by
  cases h with
  | intro hadmitted _ hrounds =>
      simp only [Store.lifecycle, hrounds.find_published hadmitted.fresh env data id]
      by_cases hid : id = descriptor.id
      · rw [if_pos hid, hid, hadmitted.fresh]
        exact .commits
      · rw [if_neg hid]
        exact .stays _

theorem PublishFailed.same_lifecycles {env : Env} {descriptor : CheckpointDescriptor}
    {data : Bytes} {s s' : System W} (h : PublishFailed env descriptor data s s') :
    SameLifecycles s s' := by
  obtain ⟨_, _, _, _, _, hstore⟩ := h.store_eq
  intro id
  simp only [Store.lifecycle, hstore]

theorem moves_swept {rec : CheckpointRecord} (h : rec.lifecycle.Settled) :
    Moves (some rec.lifecycle) (some rec.swept.lifecycle) := by
  unfold CheckpointRecord.swept
  rcases h with heq | heq | heq
  · simpa [heq] using Moves.deletes
  · simpa [heq] using Moves.deletesRetired
  · simpa [heq] using Moves.stays _

/-- A collection deletes, or leaves a lifecycle as it is. -/
theorem GcRan.moves {env : Env} {s s' : System W} (h : GcRan env s s')
    (hsettled : AllSettled s.store) (id : CheckpointId) :
    Moves (s.store.lifecycle id) (s'.store.lifecycle id) := by
  obtain ⟨eligible, hcheckpoints⟩ := h.checkpoints_eq
  simp only [Store.lifecycle, hcheckpoints, find_sweep_eq]
  split
  · cases hfind : s.store.checkpoints.find id with
    | none => exact .stays _
    | some rec => exact moves_swept (hsettled id _ (by rw [Store.lifecycle, hfind]; rfl))
  · exact .stays _

/-! ## Every step -/

/-- A restart returns, and the file it loads is a save of a store whose checkpoints have the
lifecycles that they have now. -/
def RestartsCurrent (env : Env) (s : System W) : Event W → Prop
  | .call (.reopen options _) thrown => thrown = none ∧ ∃ saved : Store W, WellKeyed saved ∧
      s.files.find options.statePath =
        some (stateFrame env.hash (stateBody env.period saved)) ∧
      ∀ id, saved.lifecycle id = s.store.lifecycle id
  | _ => True

/-- A step that restarts from up-to-date saves only. -/
def CurrentStep (env : Env) (s : System W) (e : Event W) (s' : System W) : Prop :=
  Step env Anything s e s' ∧ RestartsCurrent env s e

theorem Reproduces.lifecycle {period : ClockPeriod} {saved store : Store W}
    (h : Reproduces period saved store) (id : CheckpointId) :
    store.lifecycle id = saved.lifecycle id := by
  rw [Store.lifecycle, h.checkpoints id, Option.map_map, Store.lifecycle]
  rfl

theorem same_lifecycles_reopen {env : Env} {s : System W} {options : StoreOptions}
    {backends : UnorderedMap StorageBackendId (IBackend W)}
    (h : RestartsCurrent env s
      (.call (.reopen options backends) (thrown (reopenStore env options backends s)))) :
    SameLifecycles s (finalState (reopenStore env options backends s)) := by
  obtain ⟨hreturned, saved, hkeyed, hfile, hcurrent⟩ := h
  have hpost : Post (reopenStore env options backends) s
      (fun _ s' => Reproduces env.period saved s'.store) (fun _ _ => True) := by
    refine (post_reopen_file hkeyed hfile backends).mono (fun _ _ h => ?_) (fun _ _ _ => trivial)
    rw [h.2]
    exact recovered_reproduces env.period hkeyed fun _ => rfl
  cases hrun : reopenStore env options backends s with
  | error e s' => simp [hrun] at hreturned
  | ok _ s' => exact fun id => ((hpost.of_ok hrun).lifecycle id).trans (hcurrent id)

/-- What one step does to the lifecycle of a checkpoint. -/
theorem step_moves {env : Env} {s s' : System W} {e : Event W} (h : CurrentStep env s e s')
    (hsettled : AllSettled s.store) (id : CheckpointId) :
    Moves (s.store.lifecycle id) (s'.store.lifecycle id) := by
  obtain ⟨hstep, hcurrent⟩ := h
  have hlooks := routine_invariant_lifecycles s
  have hroutine : e.routine = true → Moves (s.store.lifecycle id) (s'.store.lifecycle id) :=
    fun hroutine => .of_eq (hlooks.step hstep hroutine (fun _ => rfl) id)
  cases hstep with
  | rehash | outside => exact hroutine rfl
  | call op =>
      cases op with
      | createFamily => exact .stays _
      | publish descriptor data =>
          exact publish_ends
            (P := fun _ (s' : System W) => Moves (s.store.lifecycle id) (s'.store.lifecycle id))
            (fun _ h => h.moves id) fun _ _ h => .of_eq (h.same_lifecycles id)
      | retire rid => exact moves_retire env rid id s
      | gcRun =>
          exact gc_run_ends
            (P := fun _ (s' : System W) => Moves (s.store.lifecycle id) (s'.store.lifecycle id))
            fun _ _ h => h.moves hsettled id
      | restore restoreId rid =>
          have hrestore : Preserves (SameLifecycles s) ((Op.restore restoreId rid).run env) :=
            preserves_map (hlooks.preserves_restore (P := fun _ => True)
              (fun rd hs _ => same_lifecycles_quarantine rid _ rd hs) env restoreId
              fun _ _ _ _ _ _ => trivial) _
          exact .of_eq (post_final (P := fun _ s' => SameLifecycles s s')
            (hrestore s fun _ => rfl) id)
      | resetAuthority => exact .of_eq (lifecycle_authority_reset hsettled id)
      | reopen options backends => exact .of_eq (same_lifecycles_reopen hcurrent id)
      | _ => exact hroutine rfl

/-- Every run keeps the lifecycles settled. -/
theorem all_settled_run {env : Env} {s s' : System W} {events : List (Event W)}
    (hrun : Run (CurrentStep env) s events s') (hsettled : AllSettled s.store) :
    AllSettled s'.store := by
  refine Run.invariant_on (A := fun _ => True) (fun _ s => AllSettled s.store) hsettled ?_ hrun
    (fun _ _ => trivial)
  intro _ s₁ e s₂ _ hs₁ _ hstep id
  exact (step_moves hstep hs₁ id).settled (hs₁ id)

/-- A deleted checkpoint stays deleted. -/
theorem deleted_run {env : Env} {s s' : System W} {events : List (Event W)}
    (hrun : Run (CurrentStep env) s events s') (hsettled : AllSettled s.store)
    {id : CheckpointId} (hdeleted : s.store.lifecycle id = some .deleted) :
    s'.store.lifecycle id = some .deleted := by
  refine (Run.invariant_on (A := fun _ => True)
    (fun _ s => AllSettled s.store ∧ s.store.lifecycle id = some .deleted)
    ⟨hsettled, hdeleted⟩ ?_ hrun (fun _ _ => trivial)).2
  rintro _ s₁ e s₂ _ ⟨hs₁, hdeleted₁⟩ _ hstep
  have hmoves := fun id => step_moves hstep hs₁ id
  refine ⟨fun id' => (hmoves id').settled (hs₁ id'), ?_⟩
  have hmove := hmoves id
  rw [hdeleted₁] at hmove
  exact hmove.deleted

/-! ## What a deleted checkpoint refuses -/

theorem lifecycle_eq_some_iff {store : Store W} {id : CheckpointId}
    {lifecycle : CheckpointLifecycle} : store.lifecycle id = some lifecycle ↔
      ∃ rec, store.checkpoints.find id = some rec ∧ rec.lifecycle = lifecycle :=
  Option.map_eq_some_iff

/-- A deleted checkpoint is not restored. -/
theorem restore_deleted {s : System W} {id : CheckpointId}
    (h : s.store.lifecycle id = some .deleted) (env : Env) (restoreId : RestoreId) :
    restore env restoreId id s =
      .error (.error .notFound "checkpoint no longer restorable") s := by
  obtain ⟨rec, hfind, hdeleted⟩ := lifecycle_eq_some_iff.mp h
  have hrefused : Post (restore env restoreId id) s (fun _ _ => False)
      (fun e s' => e = .error .notFound "checkpoint no longer restorable" ∧ s' = s) := by
    simp [restore, post_bind, post_get, hfind, hdeleted]
  cases hrun : restore env restoreId id s with
  | ok r s' => exact (hrefused.of_ok hrun).elim
  | error e s' =>
      obtain ⟨rfl, rfl⟩ := hrefused.of_error hrun
      rfl

/-- An id with a record is refused by the second admission check, unless the first one refuses. -/
theorem publish_existing {s : System W} {descriptor : CheckpointDescriptor}
    (h : s.store.checkpoints.find descriptor.id ≠ none) (env : Env) (data : Bytes) :
    ∃ e s', publish env descriptor data s = .error e s' ∧
      (e = .error .staleAuthority "publish authority is stale" ∨
        e = .error .alreadyExists "checkpoint already committed") ∧
      s'.store.checkpoints = s.store.checkpoints := by
  have hcontains : s.store.checkpoints.contains descriptor.id = true :=
    contains_iff.mpr (Option.ne_none_iff_exists'.mp h)
  have hrefused : Post (publish env descriptor data) s (fun _ _ => False)
      (fun e s' => (e = .error .staleAuthority "publish authority is stale" ∨
        e = .error .alreadyExists "checkpoint already committed") ∧
        s'.store.checkpoints = s.store.checkpoints) := by
    simp only [publish, checkAdmission, post_bind, post_get, post_ite, post_modify_counters,
      post_throw_store_error, hcontains]
    exact ⟨fun _ => ⟨.inl trivial, trivial⟩, fun _ =>
      ⟨fun _ => ⟨.inr trivial, trivial⟩, fun hne => absurd trivial hne⟩⟩
  cases hrun : publish env descriptor data s with
  | ok r s' => exact (hrefused.of_ok hrun).elim
  | error e s' => exact ⟨e, s', rfl, hrefused.of_error hrun⟩

/-- Deletion is final, as long as restarts load up-to-date saves. In any run, a step commits a new
checkpoint, retires a committed one, deletes a committed or a retired one, or leaves the lifecycle
as it is. A deleted checkpoint is deleted ever after, cannot be restored, and its id is refused by
`publish`. -/
theorem deletion_final {env : Env} {start : StoreOptions}
    {registered : UnorderedMap StorageBackendId (IBackend W)} {w : W}
    {files : UnorderedMap Bytes Bytes} {events : List (Event W)} {s : System W}
    (hrun : Run (CurrentStep env) { System.fresh start registered w with files := files } events s)
    (id : CheckpointId) :
    (∀ e s', CurrentStep env s e s' → Moves (s.store.lifecycle id) (s'.store.lifecycle id)) ∧
    (s.store.lifecycle id = some .deleted → ∀ later s', Run (CurrentStep env) s later s' →
      s'.store.lifecycle id = some .deleted ∧
      (∀ restoreId, restore env restoreId id s' =
        .error (.error .notFound "checkpoint no longer restorable") s') ∧
      ∀ descriptor data, descriptor.id = id →
        ∃ e s'', publish env descriptor data s' = .error e s'' ∧
          (e = .error .staleAuthority "publish authority is stale" ∨
            e = .error .alreadyExists "checkpoint already committed") ∧
          s''.store.lifecycle id = some .deleted) := by
  have hsettled : AllSettled s.store := all_settled_run hrun fun id lifecycle h => by cases h
  refine ⟨fun e s' hstep => step_moves hstep hsettled id, fun hdeleted later s' hlater => ?_⟩
  have hdeleted' := deleted_run hlater hsettled hdeleted
  refine ⟨hdeleted', restore_deleted hdeleted' env, ?_⟩
  rintro descriptor data rfl
  obtain ⟨rec, hfind, _⟩ := lifecycle_eq_some_iff.mp hdeleted'
  have hexists : s'.store.checkpoints.find descriptor.id ≠ none := by
    rw [hfind]
    simp
  obtain ⟨e, s'', hthrows, hrefused, hsame⟩ := publish_existing hexists env data
  refine ⟨e, s'', hthrows, hrefused, ?_⟩
  rw [Store.lifecycle, hsame]
  exact hdeleted'

/-- A restart after a completed save is one from an up-to-date save. -/
theorem current_step_reopen {env : Env} {s s₁ : System W} {answers : WriteAnswers}
    (hkeyed : WellKeyed s.store) (hsave : saveState env answers s = .ok () s₁)
    (hrecoverable : Recoverable env.period s.store)
    (backends : UnorderedMap StorageBackendId (IBackend W)) :
    CurrentStep env s₁ (.call (.reopen s.store.options backends) none)
      { s₁ with store := reloaded env.period s.store s.store.options backends } := by
  have hreturns : (Op.reopen s.store.options backends).run env s₁ =
      .ok () { s₁ with store := reloaded env.period s.store s.store.options backends } :=
    reopen_saved_returns hkeyed hsave rfl backends hrecoverable
  have hstep := Step.of_final (R := Anything) (congrArg finalState hreturns)
  rw [hreturns] at hstep
  have hstore : s₁.store = s.store := by
    obtain ⟨files, hfiles⟩ := (post_save_state answers s).of_ok hsave
    rw [hfiles]
  exact ⟨hstep, rfl, s.store, hkeyed, saved_file hsave, fun id => by rw [hstore]⟩

/-- A restart keeps a deletion. -/
theorem deletion_final_restarted :
    let env := sampleEnv tagHash
    let s := sampleRun tagHash [] sharedThenCollected
    s.store.lifecycle ⟨7⟩ = some .deleted ∧
      ∃ s', reopenStore env s.store.options s.store.backends (finalState (saveState env {} s)) =
          .ok () s' ∧
        s'.store.lifecycle ⟨7⟩ = some .deleted ∧
        restore env ⟨1⟩ ⟨7⟩ s' =
          .error (.error .notFound "checkpoint no longer restorable") s' := by
  intro env s
  have hrun : Run (CurrentStep env)
      { System.fresh { chunkSize := 1 } (assign ⟨1⟩ (memoryBackend tagHash) ∅) {} with files := ∅ }
      (callEvents env (sampleSystem tagHash []) sharedThenCollected) s :=
    run_calls_where (P := fun s e _ => RestartsCurrent env s e)
      ⟨trivial, trivial, trivial, trivial, trivial, trivial, trivial⟩
  have hkeyed : WellKeyed s.store := well_keyed_run (well_keyed_create _ _)
    (run_calls env Anything (sampleSystem tagHash []) sharedThenCollected)
  have hstate : s.store.lifecycle ⟨7⟩ = some .deleted ∧ Recoverable .nanoseconds s.store := by
    decide +kernel
  have hsave := save_state_returns env s
  have hreopen := reopen_saved_returns hkeyed hsave rfl s.store.backends hstate.2
  have hlater : Run (CurrentStep env) s [.call (.saveState {}) none,
      .call (.reopen s.store.options s.store.backends) none] _ :=
    (Run.start.extend ⟨.call (.saveState {}), trivial⟩).extend
      (current_step_reopen hkeyed hsave hstate.2 s.store.backends)
  obtain ⟨hdeleted, hrestore, _⟩ := (deletion_final hrun ⟨7⟩).2 hstate.1 _ _ hlater
  exact ⟨hstate.1, _, hreopen, hdeleted, hrestore ⟨1⟩⟩

/-! ## Why the save must be up to date -/

/-- Retirement and collection leave the files alone. -/
theorem files_collect (env : Env) (s : System W) (id : CheckpointId) :
    (callAll env s [.retire id, .gcPlan, .gcRun]).files = s.files := by
  have hkeeps : ∀ (op : Op W) (s : System W), op = .retire id ∨ op = .gcPlan ∨ op = .gcRun →
      (finalState (op.run env s)).files = s.files := by
    intro op s hop
    have hregisters := step_registers (.call op : Step env Anything s _ _)
    rcases hop with rfl | rfl | rfl
    all_goals
      cases hregisters with
      | same h => exact h.files
  rw [show callAll env s [.retire id, .gcPlan, .gcRun] = finalState (Op.gcRun.run env
    (finalState (Op.gcPlan.run env (finalState ((Op.retire id).run env s))))) from rfl,
    hkeeps _ _ (.inr (.inr rfl)), hkeeps _ _ (.inr (.inl rfl)), hkeeps _ _ (.inl rfl)]

/-- As long as the file of a save is there, a restart brings back the lifecycles it has. -/
theorem reopen_after_save {env : Env} {s s₁ : System W} (hkeyed : WellKeyed s.store)
    (hfiles : s₁.files = (finalState (saveState env {} s)).files)
    (hrecoverable : Recoverable env.period s.store) :
    let store := reloaded env.period s.store s.store.options s.store.backends
    reopenStore env s.store.options s.store.backends s₁ = .ok () { s₁ with store := store } ∧
      ∀ id, store.lifecycle id = s.store.lifecycle id := by
  have hfile : s₁.files.find s.store.options.statePath =
      some (stateFrame env.hash (stateBody env.period s.store)) := by
    rw [hfiles]
    exact saved_file (save_state_returns env s)
  have hreproduces : Reproduces env.period s.store
      (reloaded env.period s.store s.store.options s.store.backends) :=
    recovered_reproduces _ hkeyed fun _ => rfl
  exact ⟨reopen_file_returns hkeyed hfile s.store.backends hrecoverable, hreproduces.lifecycle⟩

/-- A checkpoint that is collected after the last save is committed again after a restart from that
save, and its content is gone. -/
theorem deleted_checkpoint_returns :
    let env := sampleEnv sha256Hash
    let s := sampleRun sha256Hash [] [.createFamily, .publish (sampleDescriptor 7 1 1) [5],
      .publish (sampleDescriptor 8 2 0) []]
    let s₁ := callAll env (finalState (saveState env {} s)) [.retire ⟨7⟩, .gcPlan, .gcRun]
    s₁.store.lifecycle ⟨7⟩ = some .deleted ∧
      ∃ s₂, reopenStore env s.store.options s.store.backends s₁ = .ok () s₂ ∧
        s₂.store.lifecycle ⟨7⟩ = some .committed ∧
        thrown (restore env ⟨1⟩ ⟨7⟩ s₂) =
          some (.error .corrupt "restore: no verified replica for a required chunk") := by
  have hstate :
      let env := sampleEnv sha256Hash
      let s := sampleRun sha256Hash [] [.createFamily, .publish (sampleDescriptor 7 1 1) [5],
        .publish (sampleDescriptor 8 2 0) []]
      let s₁ := callAll env (finalState (saveState env {} s)) [.retire ⟨7⟩, .gcPlan, .gcRun]
      s₁.store.lifecycle ⟨7⟩ = some .deleted ∧ Recoverable .nanoseconds s.store ∧
        s.store.lifecycle ⟨7⟩ = some .committed ∧
        thrown (restore env ⟨1⟩ ⟨7⟩
          { s₁ with store := reloaded .nanoseconds s.store s.store.options s.store.backends }) =
          some (.error .corrupt "restore: no verified replica for a required chunk") := by
    decide +kernel
  obtain ⟨hdeleted, hrecoverable, hcommitted, hgone⟩ := hstate
  have hkeyed : WellKeyed (sampleRun sha256Hash [] [.createFamily,
      .publish (sampleDescriptor 7 1 1) [5], .publish (sampleDescriptor 8 2 0) []]).store :=
    well_keyed_run (well_keyed_create _ _) (run_calls _ Anything (sampleSystem sha256Hash []) _)
  obtain ⟨hreopen, hlifecycle⟩ := @reopen_after_save _ (sampleEnv sha256Hash) _ _ hkeyed
    (files_collect _ _ ⟨7⟩) hrecoverable
  exact ⟨hdeleted, _, hreopen, (hlifecycle ⟨7⟩).trans hcommitted, hgone⟩

end CheckpointStore
