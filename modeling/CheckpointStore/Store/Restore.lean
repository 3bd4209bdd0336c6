import CheckpointStore.Store.State

/-!
# Verification and restore

After `restore.cpp`. A restore assembles the chunks of the manifest in order; for each it tries
the replicas of the chunk's placements until one returns bytes with the recorded digest, and at
the end it compares the hash of everything with the manifest. The steady-clock duration of the
evidence is left out.
-/

namespace CheckpointStore

open Foundation Foundation.Procedure

variable {W : Type}

/-- What a restore returns. -/
structure RestoredCheckpoint where
  bytes : Bytes
  steps : List RestoreStep := []
  evidence : RestoreEvidence
  integrity : IntegrityState := .unknown

/-- Set the integrity of a checkpoint record. -/
def setIntegrity (id : CheckpointId) (integrity : IntegrityState) (store : Store W) : Store W :=
  { store with
    checkpoints := store.checkpoints.modify id fun rec => { rec with integrity := integrity } }

/-- Count a failure of integrity. -/
def countIntegrityFailure (store : Store W) : Store W :=
  { store with
    counters := { store.counters with
      integrityFailures := store.counters.integrityFailures + 1 } }

/-! ## Verification -/

/-- The backend `verify_checkpoint` asks: the first with a verified replica, or else the last
that is registered. -/
def pickUnderlay (store : Store W) : List ReplicaId → Option (IBackend W) → Option (IBackend W)
  | [], underlay => underlay
  | rid :: rest, underlay =>
      match store.replicas.find rid with
      | none => pickUnderlay store rest underlay
      | some rd =>
          match store.backends.find rd.backendId with
          | none => pickUnderlay store rest underlay
          | some b =>
              if rd.integrity = .verified then some b else pickUnderlay store rest (some b)

/-- The loop of `verify_checkpoint`: an early verdict, or the combined hash. -/
def verifyChunks (env : Env) (underlay : IBackend W) :
    List ChunkDescriptor → env.hash.State → Proc (System W) (IntegrityState ⊕ env.hash.State)
  | [], combined => pure (.inr combined)
  | cd :: rest, combined => do
      let present ← callBackend (underlay.existsKey (blobKey cd.digest))
      if present = false then pure (.inl .missing)
      else do
        let v ← verifyObject underlay (blobKey cd.digest) cd.digest
        if v = .corrupt ∨ v = .missing then pure (.inl .corrupt)
        else do
          let rb ← callBackend (underlay.read (blobKey cd.digest))
          verifyChunks env underlay rest (env.hash.update combined rb)

/-- Record a negative verdict. -/
def condemn (id : CheckpointId) (verdict : IntegrityState) : Proc (System W) IntegrityState := do
  modifyStore fun store => countIntegrityFailure (setIntegrity id verdict store)
  pure verdict

/-- `CheckpointStore::verify_checkpoint`. -/
def verifyCheckpoint (env : Env) (id : CheckpointId) : Proc (System W) IntegrityState := do
  let s ← get
  match s.store.checkpoints.find id with
  | none => throwStoreError .notFound "checkpoint not found"
  | some rec =>
      match pickUnderlay s.store rec.replicaSet.replicas none with
      | none => condemn id .missing
      | some underlay => do
          let verdict ← verifyChunks env underlay rec.chunks env.hash.init
          match verdict with
          | .inl integrity => condemn id integrity
          | .inr combined =>
              if env.hash.final combined ≠ rec.manifest.checkpointDigest then condemn id .corrupt
              else do
                modifyStore (setIntegrity id .verified)
                pure .verified

/-- The first registered backend that holds a replica. -/
def firstUnderlay (store : Store W) (rids : List ReplicaId) : Option (IBackend W) :=
  rids.findSome? fun rid => do
    let rd ← store.replicas.find rid
    store.backends.find rd.backendId

/-- Set the integrity of the first chunk with the given identity. -/
def setChunkIntegrity (chunk : ChunkId) (integrity : IntegrityState) :
    List ChunkDescriptor → List ChunkDescriptor
  | [] => []
  | cd :: rest =>
      if cd.id = chunk then { cd with integrity := integrity } :: rest
      else cd :: setChunkIntegrity chunk integrity rest

/-- `CheckpointStore::verify_chunk`. -/
def verifyChunk (id : CheckpointId) (chunk : ChunkId) : Proc (System W) IntegrityState := do
  let s ← get
  match s.store.checkpoints.find id with
  | none => throwStoreError .notFound "checkpoint not found"
  | some rec =>
      match rec.chunks.find? (fun cd => cd.id = chunk) with
      | none => throwStoreError .notFound "chunk not found in checkpoint"
      | some cd =>
          match s.store.blobs.find cd.blobId with
          | none => pure .missing
          | some bd =>
              match firstUnderlay s.store bd.replicas with
              | none => pure .missing
              | some underlay => do
                  let v ← verifyObject underlay (blobKey cd.digest) cd.digest
                  modifyStore fun store => { store with
                    checkpoints := store.checkpoints.modify id fun rec =>
                      { rec with chunks := setChunkIntegrity chunk v rec.chunks } }
                  pure v

/-! ## Planning a restore -/

/-- The replica a plan names for a chunk: the one of the first placement of the first chunk
with that identity and a placement. -/
def plannedReplica (store : Store W) (rec : CheckpointRecord) (chunk : ChunkId) : ReplicaId :=
  match rec.chunks.find? (fun cd => cd.id = chunk ∧ cd.placements ≠ []) with
  | none => {}
  | some cd =>
      match cd.placements.head?.bind store.placements.find with
      | none => {}
      | some pd => pd.replicaId

/-- `CheckpointStore::plan_restore`. -/
def planRestore (id : CheckpointId) (priority : RestorePriority) :
    Proc (System W) RestorePlan := do
  let s ← get
  match s.store.checkpoints.find id with
  | none => throwStoreError .notFound "checkpoint not found"
  | some rec => do
      let planId ← nextId
      let restoreId ← nextId
      let plan : RestorePlan := {
        id := ⟨planId⟩, restoreId := ⟨restoreId⟩, target := id, priority := priority
        orderedAncestry := rec.manifest.lineage
        steps := rec.manifest.chunks.map fun entry => {
          checkpointId := id, chunkId := entry.chunkId
          sourceReplica := plannedReplica s.store rec entry.chunkId, result := .success }
        expectedBytes := rec.descriptor.logicalSize, parallelism := 1, generation := ⟨1⟩
        provenance := .measured }
      modifyStore fun store => { store with
        restorePlans := store.restorePlans.assign plan.id plan }
      pure plan

/-! ## Restoring -/

/-- Note a source that failed. -/
def RestoreEvidence.failed (evidence : RestoreEvidence) (rid : ReplicaId) : RestoreEvidence :=
  { evidence with failedSources := evidence.failedSources ++ [rid] }

/-- A replica returned bytes with the wrong digest: count it, and quarantine a replica that was
held to be verified. -/
def quarantine (id : CheckpointId) (rid : ReplicaId) (rd : ReplicaDescriptor) (store : Store W) :
    Store W :=
  let counted := countIntegrityFailure store
  if rd.integrity = .verified then
    { counted with
      replicas := counted.replicas.modify rid fun rd =>
        { rd with integrity := .corrupt, role := .quarantined }
      checkpoints := counted.checkpoints.modify id fun rec =>
        { rec with replicaSet := { rec.replicaSet with durabilityState := .degraded } } }
  else counted

/-- A quarantine moves nothing. -/
theorem placements_quarantine (id : CheckpointId) (rid : ReplicaId) (rd : ReplicaDescriptor)
    (store : Store W) : (quarantine id rid rd store).placements = store.placements := by
  unfold quarantine
  split <;> rfl

/-- A quarantine marks its own replica only. -/
theorem find_replica_quarantine (id : CheckpointId) (rid : ReplicaId) {rd : ReplicaDescriptor}
    (hrd : rd.integrity = .verified) (store : Store W) (rid' : ReplicaId) :
    (quarantine id rid rd store).replicas.find rid' =
      if rid' = rid then (store.replicas.find rid').map fun rd =>
        { rd with integrity := .corrupt, role := .quarantined } else store.replicas.find rid' := by
  rw [quarantine, if_pos hrd]
  exact UnorderedMap.find_modify _ _ _ _

/-- Read an object; a `CheckpointStoreError` is caught, any other exception is not. -/
def readSource (b : IBackend W) (key : BackendKey) : Proc (System W) (Option Bytes) :=
  tryCatch
    (do
      let rb ← callBackend (b.read key)
      pure (some rb))
    fun exn => match exn with
      | .error _ _ => pure none
      | .foreign => throw .foreign

/-- Try the candidate replicas of a chunk in order. -/
def restoreChunk (env : Env) (id : CheckpointId) (cd : ChunkDescriptor) :
    List ReplicaId → RestoreEvidence → Proc (System W) (Option Bytes × RestoreEvidence)
  | [], evidence => pure (none, evidence)
  | rid :: rest, evidence => do
      let s ← get
      match s.store.replicas.find rid with
      | none => restoreChunk env id cd rest evidence
      | some rd =>
          match s.store.backends.find rd.backendId with
          | none => restoreChunk env id cd rest (evidence.failed rid)
          | some b => do
              let up ← callBackend b.health
              if up = false then restoreChunk env id cd rest (evidence.failed rid)
              else do
                let attempt ← readSource b (blobKey cd.digest)
                match attempt with
                | none => restoreChunk env id cd rest (evidence.failed rid)
                | some rb =>
                    if env.hash.sha256 rb = cd.digest then
                      pure (some rb, { evidence with sourceReplica := rid })
                    else do
                      modifyStore (quarantine id rid rd)
                      restoreChunk env id cd rest (evidence.failed rid)

/-- The local variables of the restore loop. -/
structure RestoreProgress (env : Env) where
  out : Bytes := []
  combined : env.hash.State
  evidence : RestoreEvidence
  bytesRestored : UInt64 := 0
  chunksRestored : UInt64 := 0

/-- The candidate replicas of a chunk: those of its placements, or those of the checkpoint. -/
def candidates (store : Store W) (rec : CheckpointRecord) (cd : ChunkDescriptor) :
    List ReplicaId :=
  let placed := cd.placements.filterMap fun pid =>
    (store.placements.find pid).map PlacementDescriptor.replicaId
  if placed.isEmpty then rec.replicaSet.replicas else placed

/-- The local variables before the restore loop. -/
def RestoreProgress.start (env : Env) (restoreId : RestoreId) (id : CheckpointId)
    (rec : CheckpointRecord) : RestoreProgress env where
  combined := env.hash.init
  evidence := {
    restoreId := restoreId, sourceCheckpoint := id, sourceManifest := rec.manifest.id
    attemptGeneration := ⟨1⟩ }

@[simp] theorem RestoreProgress.start_out (env : Env) (restoreId : RestoreId) (id : CheckpointId)
    (rec : CheckpointRecord) : (start env restoreId id rec).out = [] := rfl

@[simp] theorem RestoreProgress.start_combined (env : Env) (restoreId : RestoreId)
    (id : CheckpointId) (rec : CheckpointRecord) :
    (start env restoreId id rec).combined = env.hash.init := rfl

/-- The restore loop over the manifest entries, with `limit` bytes of memory for the output. A
chunk that `out` cannot hold ends the loop with `std::bad_alloc`, which no handler takes. -/
def restoreChunks (env : Env) (limit : Nat) (id : CheckpointId) (rec : CheckpointRecord) :
    List ManifestEntry → RestoreProgress env → Proc (System W) (RestoreProgress env)
  | [], progress => pure progress
  | entry :: rest, progress =>
      match rec.chunks.find? (fun cd => cd.id = entry.chunkId) with
      | none => throwStoreError .malformed "restore: chunk missing from record"
      | some cd => do
          let s ← get
          let found ← restoreChunk env id cd (candidates s.store rec cd) progress.evidence
          match found.1 with
          | none => do
              modifyStore (setIntegrity id .corrupt)
              throwStoreError .corrupt "restore: no verified replica for a required chunk"
          | some rb =>
              if limit < (progress.out ++ rb).length then throw .foreign
              else restoreChunks env limit id rec rest {
                out := progress.out ++ rb
                combined := env.hash.update progress.combined rb
                evidence := found.2
                bytesRestored := progress.bytesRestored + byteSize rb
                chunksRestored := progress.chunksRestored + 1 }

/-- The end of a restore whose chunks have all been read. -/
def finishRestore (env : Env) (id : CheckpointId) (rec : CheckpointRecord)
    (progress : RestoreProgress env) : Proc (System W) RestoredCheckpoint :=
  if env.hash.final progress.combined ≠ rec.manifest.checkpointDigest then do
    modifyStore fun store => countIntegrityFailure (setIntegrity id .corrupt store)
    throwStoreError .digestMismatch "restored checkpoint digest mismatch"
  else do
    let evidence := { progress.evidence with
      bytesRestored := progress.bytesRestored
      chunksRestored := progress.chunksRestored
      integrity := .verified
      provenance := .measured }
    modifyStore fun store =>
      let verified := setIntegrity id .verified store
      { verified with
        restoreEvidence := verified.restoreEvidence.assign id evidence
        counters := { verified.counters with
          restoredBytes := verified.counters.restoredBytes + progress.bytesRestored } }
    pure { bytes := progress.out, evidence := evidence, integrity := .verified }

/-- `CheckpointStore::restore`; the priority is not used. -/
def restore (env : Env) (restoreId : RestoreId) (id : CheckpointId) :
    Proc (System W) RestoredCheckpoint := do
  let s ← get
  match s.store.checkpoints.find id with
  | none => throwStoreError .notFound "checkpoint not found"
  | some rec =>
      if rec.lifecycle = .gcEligible ∨ rec.lifecycle = .deleted then
        throwStoreError .notFound "checkpoint no longer restorable"
      else if env.memory s.ticks < rec.descriptor.logicalSize.toNat then throw .foreign
      else do
        let progress ← restoreChunks env (env.memory s.ticks) id rec rec.manifest.chunks
          (.start env restoreId id rec)
        finishRestore env id rec progress

end CheckpointStore
