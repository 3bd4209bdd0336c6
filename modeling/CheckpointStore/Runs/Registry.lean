import CheckpointStore.Persistence.Reload
import CheckpointStore.Runs.Operations

/-!
# What steps do to families, policies, authority and files

`step_registers` is the counterpart of `step_transition` for the part of the state that is not
stored content: a step leaves the registry alone, or it is one of the few operations that write
to it. From it follows `well_keyed_run`: in every reachable state every record is filed under
its own identity.
-/

namespace CheckpointStore

open Foundation Foundation.Procedure Foundation.UnorderedMap

variable {W : Type}

/-! ## Publications and collections -/

section Files

variable {underlay : IBackend W} {slice : ChunkSlice}

/-- A miss writes no file. -/
theorem Missed.files_eq {s s' : System W} (h : Missed underlay slice s s') :
    s'.files = s.files := by
  cases h with
  | absent => rfl
  | damaged => rfl

/-- Nor does acquiring a blob. -/
theorem Acquired.files_eq {p q : Publishing W} {blobId : BlobId}
    (h : Acquired underlay slice p blobId q) : q.system.files = p.system.files := by
  cases h with
  | reused => rfl
  | written hmissed => exact hmissed.files_eq

/-- Nor does the chunk loop. -/
theorem Rounds.files_eq {slices : List ChunkSlice} {p p' : Publishing W}
    (h : Rounds underlay slices p p') : p'.system.files = p.system.files := by
  induction h with
  | nil p => rfl
  | cons hacquired _ ih => exact ih.trans hacquired.files_eq

theorem AcquireFailed.files_eq {s s' : System W} (h : AcquireFailed underlay slice s s') :
    s'.files = s.files := by
  cases h with
  | lookup => rfl
  | verify => rfl
  | reference => rfl
  | putTemp hmissed => exact hmissed.files_eq
  | commit hmissed => exact hmissed.files_eq

theorem Stopped.files_eq {rest : List ChunkSlice} {s s' : System W}
    (h : Stopped underlay rest s s') : s'.files = s.files := by
  cases h with
  | atChunk _ hfailed => exact hfailed.files_eq
  | afterLoop => rfl

/-- Nor does the reclaim loop. -/
theorem Reclaims.files_eq {reachable bids : List BlobId} {s s' : System W}
    (h : Reclaims reachable bids s s') : s'.files = s.files := by
  induction h with
  | nil s => rfl
  | cons hround _ ih =>
      refine ih.trans ?_
      cases hround with
      | deferred => rfl
      | forgot => rfl

end Files

section Registry

variable {env : Env} {descriptor : CheckpointDescriptor} {data : Bytes} {s s' : System W}

/-- A failed publication keeps the registry. -/
theorem PublishFailed.same_registry (h : PublishFailed env descriptor data s s') :
    SameRegistry s s' := by
  have hfiles : s'.files = s.files := by
    cases h with
    | rejected => rfl
    | interrupted _ _ hrounds hstopped _ => exact hstopped.files_eq.trans hrounds.files_eq
  obtain ⟨_, _, _, _, _, hstore⟩ := h.store_eq
  constructor <;> simp [hstore, hfiles]

/-- So does a collection. -/
theorem GcRan.same_registry (h : GcRan env s s') : SameRegistry s s' := by
  have hfiles : s'.files = s.files := by
    cases h with
    | completed heligible hretained hreclaims =>
        obtain ⟨n, rfl⟩ := protected_sets_clock_only heligible hretained
        exact hreclaims.files_eq
    | interrupted heligible hretained _ hreclaims hthrew =>
        obtain ⟨n, rfl⟩ := protected_sets_clock_only heligible hretained
        cases hthrew with
        | intro => exact hreclaims.files_eq
  obtain ⟨_, _, _, _, _, hstore⟩ := h.store_eq
  constructor <;> simp [hstore, hfiles]

/-- What a commit does to the registry: the checkpoint is appended to its family, whose next
generation is the one after the checkpoint's. -/
structure Enrolled (descriptor : CheckpointDescriptor) (s s' : System W) : Prop where
  families : s'.store.families = s.store.families.modify descriptor.familyId fun f =>
    { f with checkpointIds := f.checkpointIds ++ [descriptor.id] }
  nextGenerations : s'.store.nextCheckpointGeneration =
    s.store.nextCheckpointGeneration.assign descriptor.familyId descriptor.generation.next
  nextFamilyId : s'.store.nextFamilyId = s.store.nextFamilyId
  retention : s'.store.retention = s.store.retention
  bootId : s'.store.options.bootId = s.store.options.bootId
  statePath : s'.store.options.statePath = s.store.options.statePath
  coordinatorEpoch : s'.store.coordinatorEpoch = s.store.coordinatorEpoch
  files : s'.files = s.files

/-- A publication enrols its checkpoint. -/
theorem Published.enrolled (h : Published env descriptor data s s') :
    Enrolled descriptor s s' := by
  cases h with
  | intro _ _ hrounds =>
      have hfiles := hrounds.files_eq
      obtain ⟨_, _, _, _, _, hstore⟩ := hrounds.store_eq
      constructor <;> simp [publishedStore, commitRecord, hstore, hfiles, Publishing.start]

end Registry

/-! ## Restarts -/

/-- A restart ends in a fresh store changed by the assignments of a load, whatever the file
holds. -/
theorem LoadFrame.reopened {R : Store W → Store W → Prop} (h : LoadFrame R) (env : Env)
    (options : StoreOptions) (backends : UnorderedMap StorageBackendId (IBackend W))
    (s : System W) :
    ∃ store, finalState (reopenStore env options backends s) = { s with store := store } ∧
      R (Store.create options backends) store := by
  refine post_final (P := fun _ s' => ∃ store, s' = { s with store := store } ∧
    R (Store.create options backends) store) ?_
  rw [reopenStore, post_bind, post_modify_store]
  exact h.post_load_state_any env { s with store := Store.create options backends }

/-- A fresh store after it has loaded the file of a saved one. -/
def reloaded (period : ClockPeriod) (saved : Store W) (options : StoreOptions)
    (backends : UnorderedMap StorageBackendId (IBackend W)) : Store W :=
  recomputeCounters (recovered period saved (Store.create options backends))

section Saved

variable {env : Env} {s s₁ : System W} {answers : WriteAnswers}

/-- A save that returns has replaced the file at the state path. -/
theorem saved_file (hsave : saveState env answers s = .ok () s₁) :
    s₁.files.find s.store.options.statePath =
      some (stateFrame env.hash (stateBody env.period s.store)) := by
  have hpost : Post (saveState env answers) s
      (fun _ s' => s'.files.find s.store.options.statePath =
        some (stateFrame env.hash (stateBody env.period s.store))) (fun _ _ => True) := by
    simp only [saveState, atomicWriteFile, modifyFiles, post_bind, post_get, post_ite,
      post_throw_store_error, post_modify]
    exact ⟨fun _ => trivial, fun _ => ⟨fun _ => trivial, fun _ => ⟨fun _ => trivial, fun _ => by
      rw [find_assign, if_pos rfl]⟩⟩⟩
  exact hpost.of_ok hsave

/-- A save whose file operations succeed returns. -/
theorem save_state_returns (env : Env) (s : System W) :
    saveState env {} s = .ok () (finalState (saveState env {} s)) := rfl

/-- A fresh store loads the file of a store with well-filed records exactly when that store is
recoverable. -/
theorem post_reopen_file {saved : Store W} (hkeyed : WellKeyed saved) {options : StoreOptions}
    (hfile : s.files.find options.statePath =
      some (stateFrame env.hash (stateBody env.period saved)))
    (backends : UnorderedMap StorageBackendId (IBackend W)) :
    Post (reopenStore env options backends) s
      (fun _ s₂ => Recoverable env.period saved ∧
        s₂ = { s with store := reloaded env.period saved options backends })
      (fun _ _ => ¬ Recoverable env.period saved) := by
  rw [reopenStore, post_bind, post_modify_store]
  exact (post_load_state env (s := { s with store := Store.create options backends }) hkeyed
    (fun _ => rfl) hfile).mono (fun _ _ h => h) (fun _ _ h => h.1)

/-- A restart on the file of a recoverable store succeeds. -/
theorem reopen_file_returns {saved : Store W} (hkeyed : WellKeyed saved) {options : StoreOptions}
    (hfile : s.files.find options.statePath =
      some (stateFrame env.hash (stateBody env.period saved)))
    (backends : UnorderedMap StorageBackendId (IBackend W))
    (hrecoverable : Recoverable env.period saved) :
    reopenStore env options backends s =
      .ok () { s with store := reloaded env.period saved options backends } := by
  have hpost := post_reopen_file hkeyed hfile backends
  cases hrun : reopenStore env options backends s with
  | ok a s₂ => rw [(hpost.of_ok hrun).2]
  | error e s₂ => exact absurd hrecoverable (hpost.of_error hrun)

/-- This is so for the file that a save has written. -/
theorem post_reopen_saved (hkeyed : WellKeyed s.store)
    (hsave : saveState env answers s = .ok () s₁) {options : StoreOptions}
    (hpath : options.statePath = s.store.options.statePath)
    (backends : UnorderedMap StorageBackendId (IBackend W)) :
    Post (reopenStore env options backends) s₁
      (fun _ s₂ => Recoverable env.period s.store ∧
        s₂ = { s₁ with store := reloaded env.period s.store options backends })
      (fun _ _ => ¬ Recoverable env.period s.store) :=
  post_reopen_file hkeyed (hpath ▸ saved_file hsave) backends

/-- A restart after saving succeeds. -/
theorem reopen_saved_returns (hkeyed : WellKeyed s.store)
    (hsave : saveState env answers s = .ok () s₁) {options : StoreOptions}
    (hpath : options.statePath = s.store.options.statePath)
    (backends : UnorderedMap StorageBackendId (IBackend W))
    (hrecoverable : Recoverable env.period s.store) :
    reopenStore env options backends s₁ =
      .ok () { s₁ with store := reloaded env.period s.store options backends } :=
  reopen_file_returns hkeyed (hpath ▸ saved_file hsave) backends hrecoverable

/-- A restart after saving succeeds exactly for a recoverable store. -/
theorem reopen_saved_iff (hkeyed : WellKeyed s.store)
    (hsave : saveState env answers s = .ok () s₁) {options : StoreOptions}
    (hpath : options.statePath = s.store.options.statePath)
    (backends : UnorderedMap StorageBackendId (IBackend W)) :
    thrown (reopenStore env options backends s₁) = none ↔ Recoverable env.period s.store := by
  have hpost := post_reopen_saved hkeyed hsave hpath backends
  cases hrun : reopenStore env options backends s₁ with
  | ok a s₂ => exact ⟨fun _ => (hpost.of_ok hrun).1, fun _ => rfl⟩
  | error e s₂ =>
      exact ⟨fun h => by simp [thrown] at h, fun h => absurd h (hpost.of_error hrun)⟩

end Saved

/-! ## Every step -/

/-- The store after `set_retention_policy`. -/
def policyStored (policy : RetentionPolicy) (store : Store W) : Store W :=
  { store with retention := store.retention.assign policy.id { policy with generation := ⟨1⟩ } }

/-- The store after `set_authority_boot`. -/
def bootStored (boot : WorkerBootId) (store : Store W) : Store W :=
  { store with options := { store.options with bootId := boot } }

/-- What a step does to the registry. -/
inductive Registers (env : Env) (s : System W) : Event W → System W → Prop where
  | same {e : Event W} {s' : System W} (h : SameRegistry s s') : Registers env s e s'
  | created : Registers env s (.call .createFamily none) { s with store := familyCreated s.store }
  | policySet (policy : RetentionPolicy) : Registers env s (.call (.setRetentionPolicy policy) none)
      { s with store := policyStored policy s.store }
  | bootSet (boot : WorkerBootId) : Registers env s (.call (.setAuthorityBoot boot) none)
      { s with store := bootStored boot s.store }
  | published {descriptor : CheckpointDescriptor} {data : Bytes} {s' : System W}
      (h : Published env descriptor data s s') :
      Registers env s (.call (.publish descriptor data) none) s'
  | saved (answers : WriteAnswers) :
      Registers env s (.call (.saveState answers) (thrown (saveState env answers s)))
        (finalState (saveState env answers s))
  | reopened (options : StoreOptions) (backends : UnorderedMap StorageBackendId (IBackend W)) :
      Registers env s
        (.call (.reopen options backends) (thrown (reopenStore env options backends s)))
        (finalState (reopenStore env options backends s))

/-- What a step does to the registry. -/
theorem step_registers {env : Env} {R : W → W → Prop} {s s' : System W} {e : Event W}
    (h : Step env R s e s') : Registers env s e s' := by
  have hquiet : ∀ op : Op W, Quietly Anything (op.run env) →
      Registers env s (.call op (thrown (op.run env s))) (finalState (op.run env s)) :=
    fun op hop => .same (post_final (P := fun _ s' => Quiet Anything s s')
      (hop s (all_look_anything s))).toSameRegistry
  cases h with
  | rehash hrehashed => exact .same (quiet_rehashed (R := Anything) hrehashed).toSameRegistry
  | outside hR => exact .same { SameRegistry.refl s with }
  | call op =>
      cases op with
      | createFamily => exact .created
      | makeFullDescriptor family owner logicalSize durability =>
          exact hquiet _ (quietly_map (quietly_make_full_descriptor env _ _ _ _) _)
      | publish descriptor data =>
          exact publish_ends
            (P := fun thrown s' => Registers env s (.call (.publish descriptor data) thrown) s')
            (fun _ h => .published h) fun _ _ h => .same h.same_registry
      | retire id => exact hquiet _ (quietly_retire env id)
      | setRetentionPolicy policy => exact .policySet policy
      | gcPlan => exact hquiet _ (quietly_map (quietly_gc_plan env) _)
      | gcRun =>
          exact gc_run_ends (P := fun thrown s' => Registers env s (.call .gcRun thrown) s')
            fun _ _ h => .same h.same_registry
      | verifyCheckpoint id => exact hquiet _ (quietly_map (quietly_verify_checkpoint env id) _)
      | verifyChunk id chunk => exact hquiet _ (quietly_map (quietly_verify_chunk id chunk) _)
      | planRestore id priority => exact hquiet _ (quietly_map (quietly_plan_restore id _) _)
      | restore restoreId id => exact hquiet _ (quietly_map (quietly_restore env _ id) _)
      | resetAuthority => exact hquiet _ quietly_reset_authority
      | setAuthorityBoot boot => exact .bootSet boot
      | saveState answers => exact .saved answers
      | reopen options backends => exact .reopened options backends

/-! ## Manifests -/

/-- The manifest on record. -/
def Store.manifest (store : Store W) (id : CheckpointId) : Option CheckpointManifest :=
  (store.checkpoints.find id).map CheckpointRecord.manifest

/-- A publication that returned. -/
def Event.published : Event W → Option (CheckpointDescriptor × Bytes)
  | .call (.publish descriptor data) none => some (descriptor, data)
  | _ => none

theorem published_of_publication {e : Event W} (h : e.publication = none) : e.published = none := by
  cases e with
  | call op outcome =>
      cases op with
      | publish d data => simp [Event.publication] at h
      | _ => rfl
  | _ => rfl

/-- What a step does to the manifests: nothing, or a publication has entered a new one. -/
inductive ManifestStep (env : Env) (manifest : CheckpointId → Option CheckpointManifest) :
    Event W → (CheckpointId → Option CheckpointManifest) → Prop where
  | kept {e : Event W} (hevent : e.published = none) : ManifestStep env manifest e manifest
  | entered {d : CheckpointDescriptor} {data : Bytes} {m : CheckpointManifest}
      (hfresh : manifest d.id = none) (hlineage : m.lineage = d.lineage)
      (hdigest : m.checkpointDigest = env.hash.sha256 data) :
      ManifestStep env manifest (.call (.publish d data) none)
        fun id => if id = d.id then some m else manifest id

section Manifests

variable {env : Env} {s s' : System W} {descriptor : CheckpointDescriptor} {data : Bytes}

/-- The same content has the same manifests. -/
theorem SameContent.manifest_eq {R : W → W → Prop} (h : SameContent R s s') :
    s'.store.manifest = s.store.manifest := by
  funext id
  have hcontent := congrArg (Option.map CheckpointRecord.manifest) (h.checkpoints id)
  simp only [Option.map_map, Function.comp_def] at hcontent
  exact hcontent

theorem PublishFailed.manifest_eq (h : PublishFailed env descriptor data s s') :
    s'.store.manifest = s.store.manifest := by
  obtain ⟨_, _, _, _, _, hstore⟩ := h.store_eq
  rw [hstore]
  rfl

/-- A collection changes no manifest. -/
theorem GcRan.manifest_eq (h : GcRan env s s') : s'.store.manifest = s.store.manifest :=
  funext (h.map_find fun _ => rfl)

/-- A publication adds its own manifest. -/
theorem Published.manifest_step (h : Published env descriptor data s s') :
    ManifestStep env s.store.manifest (.call (.publish descriptor data) none : Event W)
      s'.store.manifest := by
  cases h with
  | @intro underlay slices p w hadmitted _ hrounds _ _ =>
      have hmanifest : (publishedStore env descriptor data p).manifest = fun id =>
          if id = descriptor.id then some (publishedRecord env descriptor data p).manifest
          else s.store.manifest id := by
        funext id
        rw [Store.manifest, hrounds.find_published hadmitted.fresh, apply_ite (Option.map _)]
        rfl
      have hfresh : s.store.manifest descriptor.id = none := by
        simp [Store.manifest, hadmitted.fresh]
      rw [hmanifest]
      exact .entered hfresh rfl rfl

/-- A step that is not a restart is a step of the manifests. -/
theorem step_manifests {R : W → W → Prop} {e : Event W} (h : Step env R s e s')
    (hreopen : e.reopens = false) : ManifestStep env s.store.manifest e s'.store.manifest := by
  cases step_transition (all_look_anything s) h.anything with
  | quiet hevent hcontent =>
      rw [hcontent.manifest_eq]
      exact .kept (published_of_publication hevent)
  | published hpublished => exact hpublished.manifest_step
  | publishFailed hfailed =>
      rw [hfailed.manifest_eq]
      exact .kept rfl
  | gcRan hran =>
      rw [hran.manifest_eq]
      exact .kept rfl
  | reopened => simp [Event.reopens] at hreopen

end Manifests

end CheckpointStore
