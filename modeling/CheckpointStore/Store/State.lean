import CheckpointStore.Model.BinFormat
import CheckpointStore.Storage.Backend
import CheckpointStore.Storage.Dedup

/-!
# The state of a store and the system around it

`Store W` holds the members of `CheckpointStore` and of its `Impl`, with backends over a world
`W`. `System W` adds what the operations act on besides the store: the backends' world, the
system clock and the file system. It also carries two observations that no operation reads,
the `trace` of backend calls and the number of identities drawn, so that properties of whole
runs can speak about them.

The mutex is left out: every public operation holds it from its first access to the state to
its end, so operations are atomic.
-/

namespace CheckpointStore

open Foundation Foundation.Procedure

/-- The options of a store. -/
structure StoreOptions where
  statePath : Bytes := []
  bootId : WorkerBootId := {}
  primaryBackendId : StorageBackendId := ⟨1⟩
  chunkSize : UInt64 := 64 * 1024
  requiredReplicaCount : UInt64 := 1
  defaultRetentionLatestN : UInt64 := 5

/-- The members of `CheckpointStore` and `CheckpointStore::Impl`. -/
structure Store (W : Type) where
  options : StoreOptions
  coordinatorEpoch : CoordinatorEpoch := ⟨1⟩
  dedup : DedupTable := {}
  backends : UnorderedMap StorageBackendId (IBackend W) := ∅
  primaryBackendId : StorageBackendId
  families : UnorderedMap CheckpointFamilyId FamilyRecord := ∅
  checkpoints : UnorderedMap CheckpointId CheckpointRecord := ∅
  blobs : UnorderedMap BlobId BlobDescriptor := ∅
  replicas : UnorderedMap ReplicaId ReplicaDescriptor := ∅
  placements : UnorderedMap PlacementId PlacementDescriptor := ∅
  retention : UnorderedMap RetentionPolicyId RetentionPolicy := ∅
  nextCheckpointGeneration : UnorderedMap CheckpointFamilyId CheckpointGeneration := ∅
  nextFamilyId : CheckpointFamilyId := ⟨1⟩
  nextIdCounter : UInt64 := 1000
  gc : GcState := {}
  restorePlans : UnorderedMap RestorePlanId RestorePlan := ∅
  restoreEvidence : UnorderedMap CheckpointId RestoreEvidence := ∅
  activeRestores : List RestoreId := []
  counters : AccountingSnapshot := {}

/-- The constructor of `CheckpointStore`, with the given backends registered. -/
def Store.create {W : Type} (options : StoreOptions)
    (backends : UnorderedMap StorageBackendId (IBackend W)) : Store W where
  options := options
  backends := backends
  primaryBackendId := options.primaryBackendId

/-- `max_size()` of a byte vector, beyond which `reserve` throws `std::length_error`. -/
def maxVectorSize : Nat := 2 ^ 63 - 1

/-- What a run takes from its environment: the hash function, the successive readings of the
system clock, the unit those readings count, and how many bytes a vector can be given after so
many readings. A vector that needs more ends its operation with `std::bad_alloc` or
`std::length_error`. -/
structure Env where
  hash : StreamHash
  clock : Nat → TimePoint
  period : ClockPeriod
  memory : Nat → Nat := fun _ => maxVectorSize
  memory_le : ∀ n, memory n ≤ maxVectorSize := by exact fun _ => Nat.le_refl _

/-- A backend call, as seen from outside the store. -/
inductive Observation where
  /-- `verify` was asked about a key and answered. -/
  | verified (key : BackendKey) (digest : Digest) (answer : IntegrityState)
  /-- `remove` was called. -/
  | removing (backend : StorageBackendId) (key : BackendKey)
  deriving DecidableEq

/-- The store and what it runs in. -/
structure System (W : Type) where
  store : Store W
  world : W
  /-- How often the system clock has been read. -/
  ticks : Nat := 0
  /-- File contents by path. -/
  files : UnorderedMap Bytes Bytes := ∅
  trace : List Observation := []
  idsDrawn : Nat := 0

section Primitives

variable {W α : Type}

/-- Change the store. -/
def modifyStore (f : Store W → Store W) : Proc (System W) Unit :=
  modify fun s => { s with store := f s.store }

/-- Change the counters. -/
def modifyCounters (f : AccountingSnapshot → AccountingSnapshot) : Proc (System W) Unit :=
  modifyStore fun store => { store with counters := f store.counters }

/-- `system_clock::now()`. -/
def now (env : Env) : Proc (System W) TimePoint :=
  modifyGet fun s => (env.clock s.ticks, { s with ticks := s.ticks + 1 })

/-- `next_id_counter++`. -/
def nextId : Proc (System W) UInt64 :=
  modifyGet fun s => (s.store.nextIdCounter,
    { s with
      store := { s.store with nextIdCounter := s.store.nextIdCounter + 1 }
      idsDrawn := s.idsDrawn + 1 })

/-- Call a method of a backend. -/
def callBackend (m : Proc W α) : Proc (System W) α :=
  zoom System.world (fun w s => { s with world := w }) m

/-- Call `verify` and note the answer. -/
def verifyObject (b : IBackend W) (key : BackendKey) (d : Digest) :
    Proc (System W) IntegrityState := do
  let answer ← callBackend (b.verify key d)
  modify fun s => { s with trace := s.trace ++ [.verified key d answer] }
  pure answer

/-- Note and make a call of `remove`. -/
def removeObject (id : StorageBackendId) (b : IBackend W) (key : BackendKey) :
    Proc (System W) Bool := do
  modify fun s => { s with trace := s.trace ++ [.removing id key] }
  callBackend (b.remove key)

@[simp] theorem post_throw_store_error {σ : Type} {s : σ} {Q : α → σ → Prop}
    {E : Exn → σ → Prop} (code : ErrorCode) (message : String) :
    Post (throwStoreError code message) s Q E ↔ E (.error code message) s := Iff.rfl

variable {s : System W} {E : Exn → System W → Prop}

@[simp] theorem post_modify_store {Q : Unit → System W → Prop} (f : Store W → Store W) :
    Post (modifyStore f) s Q E ↔ Q () { s with store := f s.store } := Iff.rfl

@[simp] theorem post_modify_counters {Q : Unit → System W → Prop}
    (f : AccountingSnapshot → AccountingSnapshot) :
    Post (modifyCounters f) s Q E ↔
      Q () { s with store := { s.store with counters := f s.store.counters } } := Iff.rfl

/-- Reading the clock moves it on. -/
@[simp] theorem post_now {Q : TimePoint → System W → Prop} (env : Env) :
    Post (now env) s Q E ↔ Q (env.clock s.ticks) { s with ticks := s.ticks + 1 } := Iff.rfl

/-- Drawing an identity moves the counter on. -/
@[simp] theorem post_next_id {Q : UInt64 → System W → Prop} :
    Post nextId s Q E ↔ Q s.store.nextIdCounter
      { s with
        store := { s.store with nextIdCounter := s.store.nextIdCounter + 1 }
        idsDrawn := s.idsDrawn + 1 } := Iff.rfl

/-- A backend changes the world only. -/
@[simp] theorem post_call_backend {Q : α → System W → Prop} (m : Proc W α) :
    Post (callBackend m) s Q E ↔ Post m s.world (fun a w => Q a { s with world := w })
      (fun e w => E e { s with world := w }) :=
  post_zoom _ _ _

/-- A verification leaves a trace if it returns. -/
@[simp] theorem post_verify_object {Q : IntegrityState → System W → Prop} (b : IBackend W)
    (key : BackendKey) (d : Digest) :
    Post (verifyObject b key d) s Q E ↔ Post (b.verify key d) s.world
      (fun answer w => Q answer
        { s with world := w, trace := s.trace ++ [.verified key d answer] })
      (fun e w => E e { s with world := w }) := by
  simp only [verifyObject, post_bind, post_call_backend, post_modify, post_pure]

/-- A removal leaves a trace even if it throws. -/
@[simp] theorem post_remove_object {Q : Bool → System W → Prop} (id : StorageBackendId)
    (b : IBackend W) (key : BackendKey) :
    Post (removeObject id b key) s Q E ↔ Post (b.remove key) s.world
      (fun removed w => Q removed
        { s with world := w, trace := s.trace ++ [.removing id key] })
      (fun e w => E e { s with world := w, trace := s.trace ++ [.removing id key] }) := by
  simp only [removeObject, post_bind, post_call_backend, post_modify]

end Primitives

end CheckpointStore
