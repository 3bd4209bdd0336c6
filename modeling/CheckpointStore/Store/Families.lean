import CheckpointStore.Store.State

/-!
# Families, descriptors and authority

The operations that touch neither blobs nor backends: `create_family`,
`make_full_descriptor` (from `store.cpp`), `reset_authority` (from `accounting.cpp`) and
`set_authority_boot`.
-/

namespace CheckpointStore

open Foundation Foundation.Procedure

variable {W : Type}

/-- The store after `create_family`; `emplace` keeps a family that already has the new id,
while its next generation is overwritten. -/
def familyCreated (store : Store W) : Store W :=
  let id := store.nextFamilyId
  let families := store.families.emplace id { id := id, familyGeneration := ⟨1⟩ }
  { store with
    nextFamilyId := ⟨id.value + 1⟩
    families := families
    nextCheckpointGeneration := store.nextCheckpointGeneration.assign id ⟨1⟩
    counters := { store.counters with familyCount := UInt64.ofNat families.size } }

/-- `CheckpointStore::create_family`; the owner and the provenance are not used. -/
def createFamily : Proc (System W) CheckpointFamilyId := do
  let s ← get
  modifyStore familyCreated
  pure s.store.nextFamilyId

/-- `CheckpointStore::make_full_descriptor`. -/
def makeFullDescriptor (env : Env) (family : CheckpointFamilyId) (owner : OwnerId)
    (logicalSize : UInt64) (durability : DurabilityClass) :
    Proc (System W) CheckpointDescriptor := do
  let s ← get
  match s.store.nextCheckpointGeneration.find family with
  | none => throwStoreError .notFound "family not found"
  | some next => do
      let id ← nextId
      let createdAt ← now env
      pure {
        id := ⟨id⟩, familyId := family, generation := next, kind := .full
        logicalSize := logicalSize, createdAt := createdAt, ownerId := owner
        producerBoot := s.store.options.bootId, producerGeneration := next
        retention := .keepLatestN, durability := durability, restorePriority := .normal
        provenance := .measured, policyGeneration := ⟨1⟩
        requiredReplicaCount := s.store.options.requiredReplicaCount }

/-- A checkpoint whose writing was under way has failed. -/
def CheckpointRecord.authorityReset (rec : CheckpointRecord) : CheckpointRecord :=
  if rec.lifecycle = .writing ∨ rec.lifecycle = .creating then { rec with lifecycle := .failed }
  else rec

/-- The stored bytes of a blob must be verified again before use. -/
def BlobDescriptor.authorityReset (b : BlobDescriptor) : BlobDescriptor :=
  { b with
    freshness := .revalidationRequired
    integrity := if b.integrity = .corrupt then b.integrity else .unverified }

/-- The store after `reset_authority`. -/
def authorityReset (store : Store W) : Store W :=
  { store with
    checkpoints := store.checkpoints.mapValues fun _ rec => rec.authorityReset
    blobs := store.blobs.mapValues fun _ b => b.authorityReset
    gc := { store.gc with phase := .idle }
    activeRestores := []
    counters := { store.counters with workerRestarts := store.counters.workerRestarts + 1 } }

/-- `CheckpointStore::reset_authority`. -/
def resetAuthority : Proc (System W) Unit := modifyStore authorityReset

/-- `CheckpointStore::set_authority_boot`. -/
def setAuthorityBoot (boot : WorkerBootId) : Proc (System W) Unit :=
  modifyStore fun store => { store with options := { store.options with bootId := boot } }

/-- `make_full_descriptor` draws one identity and reads the clock once, or changes nothing. -/
theorem post_make_full_descriptor (env : Env) (family : CheckpointFamilyId) (owner : OwnerId)
    (logicalSize : UInt64) (durability : DurabilityClass) (s : System W) :
    Post (makeFullDescriptor env family owner logicalSize durability) s
      (fun _ s' => (∃ next, s.store.nextCheckpointGeneration.find family = some next) ∧
        s' = { s with
          store := { s.store with nextIdCounter := s.store.nextIdCounter + 1 }
          idsDrawn := s.idsDrawn + 1
          ticks := s.ticks + 1 })
      (fun _ s' => s' = s) := by
  simp only [makeFullDescriptor, post_bind, post_get]
  cases hfind : s.store.nextCheckpointGeneration.find family with
  | none => rfl
  | some next =>
      simp only [post_bind, post_next_id, post_now, post_pure]
      exact ⟨⟨next, rfl⟩, trivial⟩

end CheckpointStore
