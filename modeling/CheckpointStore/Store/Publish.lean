import CheckpointStore.Storage.Chunking
import CheckpointStore.Store.State
import Mathlib.Data.List.Sort

/-!
# Transactional publication

After `CheckpointStore::publish`. The body of its `try` block runs on a `Publishing` state that
holds the local variables beside the system, because the rollback reads them after a throw.
The per-chunk body is cut in three: `tryReuse` (lookup, verification, reference), `writeBlob`
(staging, commit, dedup entry) and `recordChunk` (blob table, placement, locals), the last of
which cannot fail.

The main result is the inversion of one round of the loop, `post_publish_slice`: everything a
chunk can do to the system is an `Acquired` step followed by `recordChunk`, or an
`AcquireFailed` step that leaves the locals as they were.
-/

namespace CheckpointStore

open Foundation Foundation.Procedure

/-- What a publication returns. -/
structure PublishedCheckpoint where
  descriptor : CheckpointDescriptor
  manifest : CheckpointManifest
  chunks : List ChunkDescriptor
  uniquePhysicalBytes : UInt64 := 0
  deduplicatedBytes : UInt64 := 0
  dedupHits : UInt64 := 0
  dedupMisses : UInt64 := 0

/-- The local variables of `publish` that change inside its `try` block. -/
structure PublishLocals where
  replicaId : ReplicaId
  chunkDescriptors : List ChunkDescriptor := []
  manifestEntries : List ManifestEntry := []
  chunkSizes : UnorderedMap ChunkId UInt64 := ∅
  newBlobKeys : List BackendKey := []
  newDigests : List Digest := []
  writeSize : UInt64 := 0
  dedupHits : UInt64 := 0
  dedupMisses : UInt64 := 0

/-- A publication under way: the system and the local variables. -/
structure Publishing (W : Type) where
  system : System W
  locals : PublishLocals

variable {W : Type}

section Lifting

variable {α : Type}

/-- Run a procedure of the system inside `publish`. -/
def onSystem (m : Proc (System W) α) : Proc (Publishing W) α :=
  zoom Publishing.system (fun s p => { p with system := s }) m

/-- Run a block with its local variables; they end with it, however it ends. -/
def withLocals (locals : PublishLocals) (m : Proc (Publishing W) α) : Proc (System W) α := fun s =>
  match m ⟨s, locals⟩ with
  | .ok a p => .ok a p.system
  | .error e p => .error e p.system

/-- Change the local variables. -/
def modifyLocals (f : PublishLocals → PublishLocals) : Proc (Publishing W) Unit :=
  modify fun p => { p with locals := f p.locals }

end Lifting

/-! ## The source -/

/-- The checks before anything is written, in the order of the source. -/
def checkAdmission (descriptor : CheckpointDescriptor) : Proc (System W) (IBackend W) := do
  let s ← get
  if descriptor.producerBoot ≠ s.store.options.bootId then do
    modifyCounters fun c => { c with staleRejections := c.staleRejections + 1 }
    throwStoreError .staleAuthority "publish authority is stale"
  else if s.store.checkpoints.contains descriptor.id then do
    -- A replay of a committed id is rejected as a duplicate, whatever its generation.
    modifyCounters fun c => { c with duplicateRejections := c.duplicateRejections + 1 }
    throwStoreError .alreadyExists "checkpoint already committed"
  else match s.store.nextCheckpointGeneration.find descriptor.familyId with
    | none => throwStoreError .notFound "family not found"
    | some next =>
        if descriptor.generation.equalTo next = false then do
          modifyCounters fun c => { c with staleRejections := c.staleRejections + 1 }
          throwStoreError .staleGeneration "publish generation is stale"
        else if validChunkSize s.store.options.chunkSize = false then
          throwStoreError .invalidArgument "invalid configured chunk size"
        else if descriptor.kind ≠ .full ∧ descriptor.kind ≠ .synthetic then
          throwStoreError .notSupported
            "only full/synthetic checkpoint publication is supported in 1.0.0"
        else match s.store.backends.find s.store.primaryBackendId with
          | none => throwStoreError .notFound "primary backend not registered"
          | some underlay => pure underlay

/-- A dedup candidate that did not verify is not reused; a corrupt one is counted. -/
def refuseReuse (exist : IntegrityState) : Proc (Publishing W) (Option BlobId) :=
  if exist = .corrupt then do
    onSystem (modifyCounters fun c => { c with integrityFailures := c.integrityFailures + 1 })
    pure none
  else pure none

/-- Try to share an existing blob: the identity to record, if one is reused. -/
def tryReuse (underlay : IBackend W) (slice : ChunkSlice) :
    Proc (Publishing W) (Option BlobId) := do
  let p ← get
  let lookup ← fromExcept (p.system.store.dedup.lookup slice.digest (byteSize slice.bytes))
  if lookup.result = .hit then do
    let exist ← onSystem (verifyObject underlay (blobKey slice.digest) slice.digest)
    match p.system.store.dedup.find slice.digest with
    | none => refuseReuse exist
    | some e =>
        if exist = .verified then do
          let referenced ← fromExcept (p.system.store.dedup.addReference slice.digest)
          onSystem (modifyStore fun store => { store with dedup := referenced.2 })
          modifyLocals fun l => { l with dedupHits := l.dedupHits + 1 }
          pure (some e.blobId)
        else refuseReuse exist
  else pure none

/-- Stage and commit the bytes of a chunk and enter them in the dedup table. -/
def writeBlob (underlay : IBackend W) (slice : ChunkSlice) : Proc (Publishing W) Unit := do
  onSystem (callBackend (underlay.putTemp (blobKey slice.digest) slice.bytes))
  onSystem (callBackend (underlay.commit (blobKey slice.digest)))
  let p ← get
  let inserted ← fromExcept (p.system.store.dedup.insert (blobIdFromDigest slice.digest)
    slice.digest (byteSize slice.bytes) .verified ⟨1⟩)
  onSystem (modifyStore fun store => { store with dedup := inserted.2 })
  modifyLocals fun l => { l with
    dedupMisses := l.dedupMisses + 1
    writeSize := l.writeSize + byteSize slice.bytes
    newBlobKeys := l.newBlobKeys ++ [blobKey slice.digest]
    newDigests := l.newDigests ++ [slice.digest] }

/-- The descriptor of a chunk that is stored as `blobId` and placed as `placement`. -/
def newChunk (slice : ChunkSlice) (blobId : BlobId) (placement : PlacementId) :
    ChunkDescriptor where
  id := chunkIdFromDigest slice.digest
  generation := ⟨1⟩
  logicalOffset := slice.range.logicalOffset
  logicalSize := slice.range.logicalSize
  physicalSize := byteSize slice.bytes
  digest := slice.digest
  blobId := blobId
  placements := [placement]
  provenance := .measured
  integrity := .verified
  payloadEncoding := ascii ['i', 'd', 'e', 'n', 't', 'i', 't', 'y']

/-- Note in the blob table that a replica holds the blob of a chunk. -/
def recordBlob (dedup : DedupTable) (slice : ChunkSlice) (blobId : BlobId) (replica : ReplicaId)
    (blobs : UnorderedMap BlobId BlobDescriptor) : UnorderedMap BlobId BlobDescriptor :=
  match blobs.find blobId with
  | none => blobs.emplace blobId {
      id := blobId, generation := ⟨1⟩, physicalSize := byteSize slice.bytes
      digest := slice.digest, refcount := dedup.refcount slice.digest, tier := .localFilesystem
      provenance := .measured, integrity := .verified, replicas := [replica] }
  | some bd =>
      if replica ∈ bd.replicas then blobs
      else blobs.modify blobId fun bd => { bd with replicas := bd.replicas ++ [replica] }

/-- The placement of a new replica. -/
def newPlacement (id : PlacementId) (replica : ReplicaId) (backend : StorageBackendId)
    (bytes : UInt64) : PlacementDescriptor where
  id := id
  generation := ⟨1⟩
  replicaId := replica
  tierId := ⟨1⟩
  backendId := backend
  nodeId := ⟨1⟩
  volumeId := ⟨1⟩
  bytes := bytes
  provenance := .measured
  freshness := .current

/-- The rest of a round: blob table, placement and local variables. -/
def recordChunk (slice : ChunkSlice) (blobId : BlobId) (p : Publishing W) : Publishing W :=
  let store := p.system.store
  let placement : PlacementId := ⟨store.nextIdCounter⟩
  { system := { p.system with
      store := { store with
        blobs := recordBlob store.dedup slice blobId p.locals.replicaId store.blobs
        nextIdCounter := store.nextIdCounter + 1
        placements := store.placements.emplace placement
          (newPlacement placement p.locals.replicaId store.primaryBackendId
            (byteSize slice.bytes)) }
      idsDrawn := p.system.idsDrawn + 1 }
    locals := { p.locals with
      chunkDescriptors := p.locals.chunkDescriptors ++ [newChunk slice blobId placement]
      chunkSizes := p.locals.chunkSizes.emplace (chunkIdFromDigest slice.digest)
        (byteSize slice.bytes)
      manifestEntries := p.locals.manifestEntries ++
        [{ chunkId := chunkIdFromDigest slice.digest
           logicalOffset := slice.range.logicalOffset }] } }

/-- Have the bytes of a chunk stored, by sharing or by writing. -/
def acquire (underlay : IBackend W) (slice : ChunkSlice) : Proc (Publishing W) BlobId := do
  let reused ← tryReuse underlay slice
  match reused with
  | some blobId => pure blobId
  | none => do
      writeBlob underlay slice
      pure (blobIdFromDigest slice.digest)

/-- One round of the per-chunk loop. -/
def publishSlice (underlay : IBackend W) (slice : ChunkSlice) : Proc (Publishing W) Unit := do
  let blobId ← acquire underlay slice
  modify (recordChunk slice blobId)

/-- Read every chunk back, compare it with its descriptor and feed it to the combined hash. -/
def readBack (env : Env) (underlay : IBackend W) :
    List ChunkDescriptor → env.hash.State → Proc (System W) env.hash.State
  | [], combined => pure combined
  | cd :: rest, combined => do
      let rb ← callBackend (underlay.read (blobKey cd.digest))
      if byteSize rb ≠ cd.physicalSize then do
        modifyCounters fun c => { c with integrityFailures := c.integrityFailures + 1 }
        throwStoreError .integrity "chunk size mismatch during verify"
      else if env.hash.sha256 rb ≠ cd.digest then do
        modifyCounters fun c => { c with integrityFailures := c.integrityFailures + 1 }
        throwStoreError .digestMismatch "chunk verification failed"
      else readBack env underlay rest (env.hash.update combined rb)

/-- Gap and overlap validation: the offset after the last entry. `chunk_sizes.at` throws
`std::out_of_range` for an unknown chunk. -/
def tileManifest (chunkSizes : UnorderedMap ChunkId UInt64) :
    List ManifestEntry → UInt64 → Except Exn UInt64
  | [], expected => .ok expected
  | e :: rest, expected =>
      if e.logicalOffset ≠ expected then
        .error (.error .malformed "manifest has a gap or overlap")
      else match chunkSizes.find e.chunkId with
        | none => .error .foreign
        | some size => tileManifest chunkSizes rest (expected + size)

/-- The bytes that `manifest_semantic_digest` hashes. -/
def semanticBytes (m : CheckpointManifest) : Bytes :=
  BinWriter.id m.id ++ BinWriter.generation m.generation ++ BinWriter.id m.checkpointId ++
    BinWriter.generation m.checkpointGeneration ++
    BinWriter.list (fun c => BinWriter.id c.chunkId ++ BinWriter.u64 c.logicalOffset) m.chunks ++
    BinWriter.u64 m.logicalSize ++ BinWriter.sha256 m.checkpointDigest ++
    BinWriter.enum m.provenance ++ BinWriter.enum m.durability ++
    BinWriter.u64 m.requiredReplicaCount

/-- `manifest_semantic_digest`. -/
def manifestSemanticDigest (H : StreamHash) (m : CheckpointManifest) : Digest :=
  H.sha256 (semanticBytes m)

/-- The manifest before its semantic digest is set, with `unset` in that field. -/
def draftManifest (descriptor : CheckpointDescriptor) (data : Bytes) (id : ManifestId)
    (entries : List ManifestEntry) (digest unset : Digest) : CheckpointManifest where
  id := id
  generation := ⟨1⟩
  checkpointId := descriptor.id
  checkpointGeneration := descriptor.generation
  chunks := entries
  logicalSize := byteSize data
  checkpointDigest := digest
  lineage := descriptor.lineage
  parent := descriptor.parentCheckpoint
  base := descriptor.baseCheckpoint
  provenance := descriptor.provenance
  durability := descriptor.durability
  requiredReplicaCount := descriptor.requiredReplicaCount
  semanticDigest := unset

/-- The manifest with its semantic digest. -/
def newManifest (H : StreamHash) (descriptor : CheckpointDescriptor) (data : Bytes)
    (id : ManifestId) (entries : List ManifestEntry) (digest : Digest) : CheckpointManifest :=
  let draft := draftManifest descriptor data id entries digest digest
  { draft with semanticDigest := manifestSemanticDigest H draft }

/-- The replica on the primary backend. -/
def newReplica (id : ReplicaId) (backend : StorageBackendId) (writeSize : UInt64) :
    ReplicaDescriptor where
  id := id
  generation := ⟨1⟩
  backendId := backend
  sourceKind := .local
  tier := .localFilesystem
  integrity := .verified
  role := .authoritative
  physicalSize := writeSize
  provenance := .measured

/-- The record of the published checkpoint. -/
def newRecord (descriptor : CheckpointDescriptor) (manifest : CheckpointManifest)
    (l : PublishLocals) : CheckpointRecord where
  descriptor := descriptor
  manifest := manifest
  chunks := l.chunkDescriptors
  replicaSet := {
    checkpointId := descriptor.id, generation := descriptor.generation
    requiredReplicaCount := descriptor.requiredReplicaCount, replicas := [l.replicaId]
    durabilityState :=
      if descriptor.requiredReplicaCount ≤ 1 then .healthy else .underReplicated
    placementGeneration := ⟨1⟩, provenance := .measured }
  lifecycle := .committed
  integrity := .verified
  freshness := .current

/-- The counters after a commit. -/
def commitCounters (data : Bytes) (l : PublishLocals) (store : Store W) : AccountingSnapshot :=
  let c := store.counters
  let checkpointCount := UInt64.ofNat store.checkpoints.size
  let logicalBytes := c.logicalBytes + byteSize data
  let uniquePhysicalBytes := store.dedup.uniquePhysicalBytes
  { c with
    checkpointCount := checkpointCount
    committedCheckpointCount := checkpointCount
    manifestCount := checkpointCount
    logicalBytes := logicalBytes
    chunkCount := c.chunkCount + UInt64.ofNat l.chunkDescriptors.length
    blobCount := UInt64.ofNat store.blobs.size
    uniquePhysicalBytes := uniquePhysicalBytes
    deduplicatedBytes :=
      if uniquePhysicalBytes < logicalBytes then logicalBytes - uniquePhysicalBytes else 0
    replicaCount := UInt64.ofNat store.replicas.size
    placementCount := UInt64.ofNat store.placements.size
    blobReferences := UInt64.ofNat store.dedup.size }

/-- Enter a verified checkpoint in the store. -/
def commitRecord (descriptor : CheckpointDescriptor) (data : Bytes) (l : PublishLocals)
    (manifest : CheckpointManifest) (store : Store W) : Store W :=
  let committed := { store with
    replicas := store.replicas.emplace l.replicaId
      (newReplica l.replicaId store.primaryBackendId l.writeSize)
    checkpoints := store.checkpoints.emplace descriptor.id (newRecord descriptor manifest l)
    families := store.families.modify descriptor.familyId fun f =>
      { f with checkpointIds := f.checkpointIds ++ [descriptor.id] }
    nextCheckpointGeneration :=
      store.nextCheckpointGeneration.assign descriptor.familyId descriptor.generation.next }
  { committed with counters := commitCounters data l committed }

/-- The manifest entries in canonical order. -/
def sortedEntries (l : PublishLocals) : List ManifestEntry :=
  l.manifestEntries.insertionSort fun a b => a.logicalOffset ≤ b.logicalOffset

/-- Everything after the per-chunk loop: verification by reading back, and the commit. -/
def finishPublish (env : Env) (underlay : IBackend W) (descriptor : CheckpointDescriptor)
    (data : Bytes) (l : PublishLocals) : Proc (System W) PublishedCheckpoint := do
  let combined ← readBack env underlay l.chunkDescriptors env.hash.init
  if env.hash.final combined ≠ env.hash.sha256 data then
    throwStoreError .digestMismatch "checkpoint content digest mismatch"
  else do
    let expected ← fromExcept (tileManifest l.chunkSizes (sortedEntries l) 0)
    if expected ≠ byteSize data then
      throwStoreError .malformed "manifest total size mismatch"
    else do
      let manifestId ← nextId
      let manifest := newManifest env.hash descriptor data ⟨manifestId⟩ (sortedEntries l)
        (env.hash.final combined)
      modifyStore (commitRecord descriptor data l manifest)
      pure {
        descriptor := descriptor, manifest := manifest, chunks := l.chunkDescriptors
        uniquePhysicalBytes := l.writeSize
        deduplicatedBytes :=
          if l.writeSize ≤ byteSize data then byteSize data - l.writeSize else 0
        dedupHits := l.dedupHits, dedupMisses := l.dedupMisses }

/-- The body of the `try` block. -/
def publishBody (env : Env) (underlay : IBackend W) (descriptor : CheckpointDescriptor)
    (data : Bytes) (slices : List ChunkSlice) : Proc (Publishing W) PublishedCheckpoint := do
  forM slices (publishSlice underlay)
  let p ← get
  onSystem (finishPublish env underlay descriptor data p.locals)

/-- Remove one newly written object, ignoring whatever the backend throws. -/
def rollbackKey (underlay : IBackend W) (key : BackendKey) : Proc (System W) Unit :=
  tryCatch
    (do
      let s ← get
      let _ ← removeObject s.store.primaryBackendId underlay key
      pure ())
    fun _ => pure ()

/-- Release the reference of one newly written blob. -/
def rollbackDigest (d : Digest) (t : DedupTable) : DedupTable :=
  ((t.releaseReference d).2.releaseUntilOrphan d).2

/-- The `catch` block, without its final `throw`. -/
def rollback (underlay : IBackend W) (l : PublishLocals) : Proc (System W) Unit := do
  forM l.newBlobKeys (rollbackKey underlay)
  forM l.newDigests fun d =>
    modifyStore fun store => { store with dedup := rollbackDigest d store.dedup }

/-- `CheckpointStore::publish`. -/
def publish (env : Env) (descriptor : CheckpointDescriptor) (data : Bytes) :
    Proc (System W) PublishedCheckpoint := do
  let underlay ← checkAdmission descriptor
  let s ← get
  let slices ← fromExcept (chunkStream env.hash data s.store.options.chunkSize)
  let replicaId ← nextId
  withLocals { replicaId := ⟨replicaId⟩ } (tryCatch
    (publishBody env underlay descriptor data slices)
    fun e => do
      let p ← get
      onSystem (rollback underlay p.locals)
      throw e)

end CheckpointStore
