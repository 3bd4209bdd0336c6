import CheckpointStore.Foundation.Runs
import CheckpointStore.Model.Sha256
import CheckpointStore.Persistence.StateFile
import CheckpointStore.Store.Frame
import CheckpointStore.Store.PublishSteps

/-!
# Runs of a store

A run is any sequence of public operations, in any order and however they end. Between them a
hash table may be rearranged (`rehash`), so nothing proved about runs depends on an iteration
order, and the backends' world may change by a given relation (`outside`). `reopen` is a restart:
a fresh store with given options and backends that loads the state file at its path.

`step_transition` sums up what a step can do: keep the stored content (`SameContent`), publish, fail
to publish, collect garbage, or reopen.
-/

namespace CheckpointStore

open Foundation Foundation.Procedure

/-- The public operations. -/
inductive Op (W : Type) where
  | createFamily
  | makeFullDescriptor (family : CheckpointFamilyId) (owner : OwnerId) (logicalSize : UInt64)
      (durability : DurabilityClass)
  | publish (descriptor : CheckpointDescriptor) (data : Bytes)
  | retire (id : CheckpointId)
  | setRetentionPolicy (policy : RetentionPolicy)
  | gcPlan
  | gcRun
  | verifyCheckpoint (id : CheckpointId)
  | verifyChunk (id : CheckpointId) (chunk : ChunkId)
  | planRestore (id : CheckpointId) (priority : RestorePriority)
  | restore (restoreId : RestoreId) (id : CheckpointId)
  | resetAuthority
  | setAuthorityBoot (boot : WorkerBootId)
  | saveState (answers : WriteAnswers)
  | reopen (options : StoreOptions) (backends : UnorderedMap StorageBackendId (IBackend W))

variable {W : Type}

/-- A fresh store that loads the state file at its path. -/
def reopenStore (env : Env) (options : StoreOptions)
    (backends : UnorderedMap StorageBackendId (IBackend W)) : Proc (System W) Unit := do
  modifyStore fun _ => Store.create options backends
  loadState env

/-- Run an operation, forgetting what it returns. -/
def Op.run (env : Env) : Op W → Proc (System W) Unit
  | .createFamily => (fun _ => ()) <$> CheckpointStore.createFamily
  | .makeFullDescriptor family owner logicalSize durability =>
      (fun _ => ()) <$> CheckpointStore.makeFullDescriptor env family owner logicalSize durability
  | .publish descriptor data => (fun _ => ()) <$> CheckpointStore.publish env descriptor data
  | .retire id => CheckpointStore.retire env id
  | .setRetentionPolicy policy => (fun _ => ()) <$> CheckpointStore.setRetentionPolicy policy
  | .gcPlan => (fun _ => ()) <$> CheckpointStore.gcPlan env
  | .gcRun => (fun _ => ()) <$> CheckpointStore.gcRun env
  | .verifyCheckpoint id => (fun _ => ()) <$> CheckpointStore.verifyCheckpoint env id
  | .verifyChunk id chunk => (fun _ => ()) <$> CheckpointStore.verifyChunk id chunk
  | .planRestore id priority => (fun _ => ()) <$> CheckpointStore.planRestore id priority
  | .restore restoreId id => (fun _ => ()) <$> CheckpointStore.restore env restoreId id
  | .resetAuthority => CheckpointStore.resetAuthority
  | .setAuthorityBoot boot => CheckpointStore.setAuthorityBoot boot
  | .saveState answers => CheckpointStore.saveState env answers
  | .reopen options backends => reopenStore env options backends

/-- A newly constructed store in a world of its own, with no state file yet. -/
def System.fresh (options : StoreOptions)
    (backends : UnorderedMap StorageBackendId (IBackend W)) (w : W) : System W where
  store := Store.create options backends
  world := w

/-- What happened in one step of a run. -/
inductive Event (W : Type) where
  /-- An operation was called and returned, or threw. -/
  | call (op : Op W) (thrown : Option Exn)
  | rehash
  | outside

/-- What an event tries to publish. -/
def Event.publication : Event W → Option (CheckpointDescriptor × Bytes)
  | .call (.publish descriptor data) _ => some (descriptor, data)
  | _ => none

/-- A publication that threw. -/
def Event.publishFails : Event W → Bool
  | .call (.publish _ _) (some _) => true
  | _ => false

/-- A restart from a state file. -/
def Event.reopens : Event W → Bool
  | .call (.reopen _ _) _ => true
  | _ => false

/-- The same store with its hash tables in another iteration order. -/
inductive Rehashed (store : Store W) : Store W → Prop where
  | intro {backends : UnorderedMap StorageBackendId (IBackend W)}
      {families : UnorderedMap CheckpointFamilyId FamilyRecord}
      {checkpoints : UnorderedMap CheckpointId CheckpointRecord}
      {blobs : UnorderedMap BlobId BlobDescriptor}
      {replicas : UnorderedMap ReplicaId ReplicaDescriptor}
      {placements : UnorderedMap PlacementId PlacementDescriptor}
      {retention : UnorderedMap RetentionPolicyId RetentionPolicy}
      {nextCheckpointGeneration : UnorderedMap CheckpointFamilyId CheckpointGeneration}
      {restorePlans : UnorderedMap RestorePlanId RestorePlan}
      {restoreEvidence : UnorderedMap CheckpointId RestoreEvidence}
      {entries : UnorderedMap Digest DedupEntry}
      (hbackends : store.backends.Reordered backends)
      (hfamilies : store.families.Reordered families)
      (hcheckpoints : store.checkpoints.Reordered checkpoints)
      (hblobs : store.blobs.Reordered blobs)
      (hreplicas : store.replicas.Reordered replicas)
      (hplacements : store.placements.Reordered placements)
      (hretention : store.retention.Reordered retention)
      (hnext : store.nextCheckpointGeneration.Reordered nextCheckpointGeneration)
      (hplans : store.restorePlans.Reordered restorePlans)
      (hevidence : store.restoreEvidence.Reordered restoreEvidence)
      (hdedup : store.dedup.entries.Reordered entries) :
      Rehashed store
        { store with
          backends, families, checkpoints, blobs, replicas, placements, retention
          nextCheckpointGeneration, restorePlans, restoreEvidence, dedup := ⟨entries⟩ }

/-- One step: an operation, a rearranged hash table, or a change of the world by `R`. -/
inductive Step (env : Env) (R : W → W → Prop) (s : System W) : Event W → System W → Prop where
  | call (op : Op W) :
      Step env R s (.call op (thrown (op.run env s))) (finalState (op.run env s))
  | rehash {store : Store W} (h : Rehashed s.store store) :
      Step env R s .rehash { s with store := store }
  | outside {w : W} (h : R s.world w) : Step env R s .outside { s with world := w }

/-- A call is a step to the state it ends in. -/
theorem Step.of_final {env : Env} {R : W → W → Prop} {s s' : System W} {op : Op W}
    (h : finalState (op.run env s) = s') : Step env R s (.call op (thrown (op.run env s))) s' := by
  subst h
  exact .call op

/-- The relation that allows every change. -/
def Anything (_ _ : W) : Prop := True

instance : Std.Refl (Anything : W → W → Prop) := ⟨fun _ => trivial⟩

instance : IsTrans W Anything := ⟨fun _ _ _ _ _ => trivial⟩

/-- A step with a restricted world is a step. -/
theorem Step.anything {env : Env} {R : W → W → Prop} {s s' : System W} {e : Event W}
    (h : Step env R s e s') : Step env Anything s e s' := by
  cases h with
  | call op => exact .call op
  | rehash hrehashed => exact .rehash hrehashed
  | outside _ => exact .outside trivial

theorem all_look_anything (s : System W) : AllLook Anything s :=
  fun _ _ _ => ⟨fun _ _ => trivial, fun _ _ => trivial, fun _ _ _ => trivial, fun _ => trivial⟩

/-- The state after calling operations one after the other. -/
def callAll (env : Env) (s : System W) (ops : List (Op W)) : System W :=
  ops.foldl (fun s op => finalState (op.run env s)) s

/-- Calls in two parts. -/
theorem call_all_append (env : Env) (s : System W) (ops ops' : List (Op W)) :
    callAll env s (ops ++ ops') = callAll env (callAll env s ops) ops' :=
  List.foldl_append

theorem call_all_singleton (env : Env) (s : System W) (op : Op W) :
    callAll env s [op] = finalState (op.run env s) := rfl

/-- The events of these calls. -/
def callEvents (env : Env) : System W → List (Op W) → List (Event W)
  | _, [] => []
  | s, op :: rest =>
      .call op (thrown (op.run env s)) :: callEvents env (finalState (op.run env s)) rest

/-- Calling operations one after the other is a run. -/
theorem run_calls (env : Env) (R : W → W → Prop) (s : System W) (ops : List (Op W)) :
    Run (Step env R) s (callEvents env s ops) (callAll env s ops) := by
  induction ops generalizing s with
  | nil => exact .start
  | cons op rest ih => exact (Run.start.extend (.call op)).append (ih _)

/-- Every call has the property. -/
def callsSatisfy (env : Env) (P : System W → Event W → System W → Prop) :
    System W → List (Op W) → Prop
  | _, [] => True
  | s, op :: rest =>
      P s (.call op (thrown (op.run env s))) (finalState (op.run env s)) ∧
        callsSatisfy env P (finalState (op.run env s)) rest

instance decidableCallsSatisfy (env : Env) (P : System W → Event W → System W → Prop)
    [∀ s e s', Decidable (P s e s')] :
    (s : System W) → (ops : List (Op W)) → Decidable (callsSatisfy env P s ops)
  | _, [] => inferInstanceAs (Decidable True)
  | s, op :: rest =>
      have := decidableCallsSatisfy env P (finalState (op.run env s)) rest
      inferInstanceAs (Decidable (_ ∧ _))

/-- Calls that all have a property are a run of steps with the property. -/
theorem run_calls_where {env : Env} {R : W → W → Prop}
    {P : System W → Event W → System W → Prop} {s : System W} {ops : List (Op W)}
    (h : callsSatisfy env P s ops) :
    Run (fun s e s' => Step env R s e s' ∧ P s e s') s (callEvents env s ops)
      (callAll env s ops) := by
  induction ops generalizing s with
  | nil => exact .start
  | cons op rest ih => exact (Run.start.extend ⟨.call op, h.1⟩).append (ih h.2)

/-- Every call is among the events, with its outcome. -/
theorem mem_call_events {env : Env} {s : System W} (before : List (Op W))
    {ops after : List (Op W)} {op : Op W} {outcome : Option Exn}
    (hops : ops = before ++ op :: after)
    (hthrown : thrown (op.run env (callAll env s before)) = outcome) :
    .call op outcome ∈ callEvents env s ops := by
  subst hops hthrown
  induction before generalizing s with
  | nil => exact List.mem_cons_self
  | cons first rest ih => exact List.mem_cons_of_mem _ ih

/-- Every event is the call of an operation. -/
theorem op_of_mem_call_events {env : Env} {s : System W} {ops : List (Op W)} {e : Event W}
    (h : e ∈ callEvents env s ops) : ∃ op ∈ ops, ∃ thrown, e = .call op thrown := by
  induction ops generalizing s with
  | nil => simp [callEvents] at h
  | cons op rest ih =>
      rcases List.mem_cons.mp h with rfl | hin
      · exact ⟨op, by simp, _, rfl⟩
      · obtain ⟨op', hop', thrown, rfl⟩ := ih hin
        exact ⟨op', List.mem_cons_of_mem _ hop', thrown, rfl⟩

/-- Calls that do not restart the store are events that do not. -/
theorem reopens_of_mem_call_events {env : Env} {s : System W} {ops : List (Op W)} {e : Event W}
    (hops : ∀ op ∈ ops, (Event.call op none).reopens = false) (h : e ∈ callEvents env s ops) :
    e.reopens = false := by
  obtain ⟨op, hop, outcome, rfl⟩ := op_of_mem_call_events h
  have hreopens := hops op hop
  cases op with
  | reopen => simp [Event.reopens] at hreopens
  | _ => rfl

/-- What a step can do. -/
inductive Transition (env : Env) (R : W → W → Prop) (s : System W) :
    Event W → System W → Prop where
  | quiet {e : Event W} {s' : System W} (hevent : e.publication = none) (h : SameContent R s s') :
      Transition env R s e s'
  | published {descriptor : CheckpointDescriptor} {data : Bytes} {s' : System W}
      (h : Published env descriptor data s s') :
      Transition env R s (.call (.publish descriptor data) none) s'
  | publishFailed {descriptor : CheckpointDescriptor} {data : Bytes} {exn : Exn}
      {s' : System W} (h : PublishFailed env descriptor data s s') :
      Transition env R s (.call (.publish descriptor data) (some exn)) s'
  | gcRan {thrown : Option Exn} {s' : System W} (h : GcRan env s s') :
      Transition env R s (.call .gcRun thrown) s'
  | reopened {options : StoreOptions}
      {backends : UnorderedMap StorageBackendId (IBackend W)} {thrown : Option Exn}
      {s' : System W} : Transition env R s (.call (.reopen options backends) thrown) s'

section Steps

variable {env : Env} {R : W → W → Prop}

/-- Rearranging hash tables keeps the content. -/
theorem quiet_rehashed [Std.Refl R] {s : System W} {store : Store W}
    (h : Rehashed s.store store) : Quiet R s { s with store := store } := by
  cases h with
  | intro hbackends hfamilies hcheckpoints hblobs hreplicas hplacements hretention hnext _ _
      hdedup =>
      exact { Quiet.refl s with
        families := fun id => (hfamilies.find_eq id).symm
        nextGenerations := fun id => (hnext.find_eq id).symm
        retention := fun id => (hretention.find_eq id).symm
        backends := fun id => (hbackends.find_eq id).symm
        dedup := fun d => (hdedup.find_eq d).symm
        checkpoints := fun id => by rw [hcheckpoints.find_eq id]
        blobs := fun id => by rw [hblobs.find_eq id]
        replicas := fun id => by rw [hreplicas.find_eq id]
        placements := fun id => (hplacements.find_eq id).symm }

/-- Saving changes the files and nothing else. -/
theorem post_save_state (answers : WriteAnswers) (s : System W) :
    Post (saveState env answers) s (fun _ s' => ∃ files, s' = { s with files := files })
      (fun _ s' => ∃ files, s' = { s with files := files }) := by
  simp only [saveState, atomicWriteFile, modifyFiles, post_bind, post_get, post_ite,
    post_throw_store_error, post_modify]
  exact ⟨fun _ => ⟨s.files, rfl⟩, fun _ => ⟨fun _ => ⟨_, rfl⟩, fun _ =>
    ⟨fun _ => ⟨_, rfl⟩, fun _ => ⟨_, rfl⟩⟩⟩⟩

/-- The same for the state in which it ends. -/
theorem files_saved (env : Env) (answers : WriteAnswers) (s : System W) :
    ∃ files, finalState (saveState env answers s) = { s with files := files } :=
  post_final (P := fun _ s' => ∃ files, s' = { s with files := files })
    (post_save_state answers s)

/-- The two ways in which a publication ends. -/
theorem publish_ends {P : Option Exn → System W → Prop} {descriptor : CheckpointDescriptor}
    {data : Bytes} {s : System W} (hreturns : ∀ s', Published env descriptor data s s' → P none s')
    (hthrows : ∀ exn s', PublishFailed env descriptor data s s' → P (some exn) s') :
    P (thrown ((Op.publish descriptor data).run env s))
      (finalState ((Op.publish descriptor data).run env s)) := by
  refine post_final ?_
  simp only [Op.run, post_map]
  exact (post_publish env descriptor data s).mono (fun _ => hreturns) hthrows

/-- A collection ends in one way, whether it throws or not. -/
theorem gc_run_ends {P : Option Exn → System W → Prop} {s : System W}
    (hran : ∀ thrown s', GcRan env s s' → P thrown s') :
    P (thrown (Op.gcRun.run env s)) (finalState (Op.gcRun.run env s)) := by
  refine post_final ?_
  simp only [Op.run, post_map]
  exact (post_gc_run env s).mono (fun _ => hran none) (fun exn => hran (some exn))

variable [Std.Refl R] [IsTrans W R]

/-- Every step is one of the transitions. -/
theorem step_transition {s s' : System W} {e : Event W} (hlook : AllLook R s)
    (h : Step env R s e s') : Transition env R s e s' := by
  have hquiet : ∀ op : Op W, (∀ thrown, (Event.call op thrown).publication = none) →
      Quietly R (op.run env) →
      Transition env R s (.call op (thrown (op.run env s))) (finalState (op.run env s)) :=
    fun op hevent hop =>
      .quiet (hevent _)
        (post_final (P := fun _ s' => Quiet R s s') (hop s hlook)).toSameContent
  cases h with
  | rehash hrehashed => exact .quiet rfl (quiet_rehashed hrehashed).toSameContent
  | outside hR => exact .quiet rfl { SameContent.refl (R := R) s with world := hR }
  | call op =>
      cases op with
      | createFamily => exact .quiet rfl { SameContent.refl s with }
      | makeFullDescriptor family owner logicalSize durability =>
          exact hquiet _ (fun _ => rfl) (quietly_map (quietly_make_full_descriptor env _ _ _ _) _)
      | publish descriptor data =>
          exact publish_ends
            (P := fun thrown s' => Transition env R s (.call (.publish descriptor data) thrown) s')
            (fun _ h => .published h) fun _ _ h => .publishFailed h
      | retire id => exact hquiet _ (fun _ => rfl) (quietly_retire env id)
      | setRetentionPolicy policy => exact .quiet rfl { SameContent.refl s with }
      | gcPlan => exact hquiet _ (fun _ => rfl) (quietly_map (quietly_gc_plan env) _)
      | gcRun =>
          exact gc_run_ends (P := fun thrown s' => Transition env R s (.call .gcRun thrown) s')
            fun _ _ h => .gcRan h
      | verifyCheckpoint id =>
          exact hquiet _ (fun _ => rfl) (quietly_map (quietly_verify_checkpoint env id) _)
      | verifyChunk id chunk =>
          exact hquiet _ (fun _ => rfl) (quietly_map (quietly_verify_chunk id chunk) _)
      | planRestore id priority =>
          exact hquiet _ (fun _ => rfl) (quietly_map (quietly_plan_restore id _) _)
      | restore restoreId id =>
          exact hquiet _ (fun _ => rfl) (quietly_map (quietly_restore env _ id) _)
      | resetAuthority => exact hquiet _ (fun _ => rfl) quietly_reset_authority
      | setAuthorityBoot boot => exact .quiet rfl { SameContent.refl s with }
      | saveState answers =>
          obtain ⟨files, hfiles⟩ := files_saved env answers s
          refine .quiet rfl ?_
          show SameContent R s (finalState (saveState env answers s))
          rw [hfiles]
          exact { SameContent.refl s with }
      | reopen options backends => exact .reopened

end Steps

/-! ## A concrete store -/

/-- A cheap stand-in for SHA-256 that separates all inputs of at most 31 bytes: the length
followed by the input, padded to 32 bytes. -/
def tagHash : StreamHash := .ofFunction fun data => {
  bytes := (UInt8.ofNat data.length :: data ++ List.replicate 32 0).take 32
  length_eq := by simp }

/-- An environment for concrete runs, with a clock that stands still. -/
def sampleEnv (H : StreamHash) : Env where
  hash := H
  clock _ := 0
  period := .nanoseconds

/-- A fresh store with one-byte chunks and one in-memory backend that fails as scripted. -/
def sampleSystem (H : StreamHash) (faults : List Bool) : System MemoryWorld :=
  .fresh { chunkSize := 1 } (UnorderedMap.assign ⟨1⟩ (memoryBackend H) ∅) { faults := faults }

/-- The memory is its only backend. -/
theorem sample_backends (H : StreamHash) {id : StorageBackendId} {b : IBackend MemoryWorld}
    (hfind : (sampleSystem H []).store.backends.find id = some b) : b = memoryBackend H := by
  have hfind' : (UnorderedMap.assign ⟨1⟩ (memoryBackend H) ∅ :
    UnorderedMap StorageBackendId _).find id = some b := hfind
  rw [UnorderedMap.find_assign] at hfind'
  split at hfind'
  · exact (Option.some.inj hfind').symm
  · simp at hfind'

/-- The state after some calls on such a store. -/
def sampleRun (H : StreamHash) (faults : List Bool) (ops : List (Op MemoryWorld)) :
    System MemoryWorld :=
  callAll (sampleEnv H) (sampleSystem H faults) ops

/-- A descriptor of the first family that such a store admits as its `generation`-th
checkpoint. -/
def sampleDescriptor (id generation size : UInt64) : CheckpointDescriptor where
  id := ⟨id⟩
  familyId := ⟨1⟩
  generation := ⟨generation⟩
  logicalSize := size

end CheckpointStore
