import CheckpointStore.Model.BinFormat

/-!
# Record encoders and decoders

The `write_*` and `read_*` functions of `persistence.cpp`, field by field and in the order of
the source.
-/

namespace CheckpointStore

namespace BinWriter

/-- Write a descriptor. -/
def writeDescriptor (period : ClockPeriod) (d : CheckpointDescriptor) : Bytes :=
  id d.id ++ id d.familyId ++ generation d.generation ++ enum d.kind ++ u64 d.logicalSize ++
    timePoint period d.createdAt ++ id d.ownerId ++ id d.producerBoot ++
    generation d.producerGeneration ++ optional id d.parentCheckpoint ++
    optional id d.baseCheckpoint ++ list id d.lineage ++ list id d.references ++
    string d.compatibility ++ enum d.retention ++ enum d.durability ++ enum d.restorePriority ++
    enum d.provenance ++ generation d.policyGeneration ++ u64 d.requiredReplicaCount

/-- Write an entry of a manifest. -/
def writeManifestEntry (e : ManifestEntry) : Bytes := id e.chunkId ++ u64 e.logicalOffset

/-- Write a manifest. -/
def writeManifest (m : CheckpointManifest) : Bytes :=
  id m.id ++ generation m.generation ++ id m.checkpointId ++ generation m.checkpointGeneration ++
    list writeManifestEntry m.chunks ++ u64 m.logicalSize ++ sha256 m.checkpointDigest ++
    list id m.lineage ++ optional id m.parent ++ optional id m.base ++ enum m.provenance ++
    enum m.durability ++ u64 m.requiredReplicaCount ++ sha256 m.semanticDigest

/-- Write a chunk. -/
def writeChunk (c : ChunkDescriptor) : Bytes :=
  id c.id ++ generation c.generation ++ u64 c.logicalOffset ++ u64 c.logicalSize ++
    u64 c.physicalSize ++ sha256 c.digest ++ id c.blobId ++ list id c.placements ++
    u64 c.refcount ++ enum c.provenance ++ enum c.integrity ++ boolean c.compressed ++
    string c.payloadEncoding

/-- Write a replica set. -/
def writeReplicaSet (s : ReplicaSet) : Bytes :=
  id s.checkpointId ++ generation s.generation ++ u64 s.requiredReplicaCount ++
    list id s.replicas ++ enum s.durabilityState ++ generation s.placementGeneration ++
    enum s.provenance

/-- Write a blob. -/
def writeBlobDescriptor (b : BlobDescriptor) : Bytes :=
  id b.id ++ generation b.generation ++ u64 b.physicalSize ++ sha256 b.digest ++ u64 b.refcount ++
    u64 b.byteReferences ++ enum b.tier ++ enum b.provenance ++ enum b.integrity ++
    enum b.freshness ++ list id b.replicas

/-- Write a replica. -/
def writeReplica (r : ReplicaDescriptor) : Bytes :=
  id r.id ++ generation r.generation ++ id r.backendId ++ enum r.sourceKind ++ enum r.tier ++
    enum r.integrity ++ enum r.role ++ u64 r.physicalSize ++ enum r.provenance

/-- Write a placement. -/
def writePlacement (p : PlacementDescriptor) : Bytes :=
  id p.id ++ generation p.generation ++ id p.replicaId ++ id p.tierId ++ id p.backendId ++
    id p.nodeId ++ id p.volumeId ++ u64 p.bytes ++ enum p.provenance ++ enum p.freshness

/-- Write a retention policy. -/
def writeRetention (p : RetentionPolicy) : Bytes :=
  id p.id ++ id p.familyId ++ enum p.retentionClass ++ u64 p.latestN ++ u64 p.ttl.toUInt64 ++
    boolean p.protectAncestry ++ boolean p.recomputable ++ boolean p.policyProtected ++
    generation p.generation ++ enum p.provenance

/-- A family, as `save_state` writes it. -/
def writeFamily (f : FamilyRecord) : Bytes :=
  id f.id ++ generation f.familyGeneration ++ list id f.checkpointIds

/-- A checkpoint record, as `save_state` writes it. -/
def writeRecord (period : ClockPeriod) (r : CheckpointRecord) : Bytes :=
  writeDescriptor period r.descriptor ++ writeManifest r.manifest ++ list writeChunk r.chunks ++
    writeReplicaSet r.replicaSet ++ enum r.lifecycle ++ enum r.integrity ++ enum r.freshness

end BinWriter

namespace BinReader

/-- Read a descriptor. -/
def readDescriptor (period : ClockPeriod) : Proc BinReader CheckpointDescriptor := do
  let id' ← id
  let familyId ← id
  let generation' ← generation
  let kind ← enum
  let logicalSize ← u64
  let createdAt ← timePoint period
  let ownerId ← id
  let producerBoot ← id
  let producerGeneration ← generation
  let parentCheckpoint ← optional id
  let baseCheckpoint ← optional id
  let lineage ← list id
  let references ← list id
  let compatibility ← string
  let retention ← enum
  let durability ← enum
  let restorePriority ← enum
  let provenance ← enum
  let policyGeneration ← generation
  let requiredReplicaCount ← u64
  pure {
    id := id', familyId, generation := generation', kind, logicalSize, createdAt, ownerId
    producerBoot, producerGeneration, parentCheckpoint, baseCheckpoint, lineage, references
    compatibility, retention, durability, restorePriority, provenance, policyGeneration
    requiredReplicaCount }

/-- Read an entry of a manifest. -/
def readManifestEntry : Proc BinReader ManifestEntry := do
  let chunkId ← id
  let logicalOffset ← u64
  pure { chunkId, logicalOffset }

/-- Read a manifest. -/
def readManifest : Proc BinReader CheckpointManifest := do
  let id' ← id
  let generation' ← generation
  let checkpointId ← id
  let checkpointGeneration ← generation
  let chunks ← list readManifestEntry
  let logicalSize ← u64
  let checkpointDigest ← sha256
  let lineage ← list id
  let parent ← optional id
  let base ← optional id
  let provenance ← enum
  let durability ← enum
  let requiredReplicaCount ← u64
  let semanticDigest ← sha256
  pure {
    id := id', generation := generation', checkpointId, checkpointGeneration, chunks, logicalSize
    checkpointDigest, lineage, parent, base, provenance, durability, requiredReplicaCount
    semanticDigest }

/-- Read a chunk. -/
def readChunk : Proc BinReader ChunkDescriptor := do
  let id' ← id
  let generation' ← generation
  let logicalOffset ← u64
  let logicalSize ← u64
  let physicalSize ← u64
  let digest ← sha256
  let blobId ← id
  let placements ← list id
  let refcount ← u64
  let provenance ← enum
  let integrity ← enum
  let compressed ← boolean
  let payloadEncoding ← string
  pure {
    id := id', generation := generation', logicalOffset, logicalSize, physicalSize, digest, blobId
    placements, refcount, provenance, integrity, compressed, payloadEncoding }

/-- Read a replica set. -/
def readReplicaSet : Proc BinReader ReplicaSet := do
  let checkpointId ← id
  let generation' ← generation
  let requiredReplicaCount ← u64
  let replicas ← list id
  let durabilityState ← enum
  let placementGeneration ← generation
  let provenance ← enum
  pure {
    checkpointId, generation := generation', requiredReplicaCount, replicas, durabilityState
    placementGeneration, provenance }

/-- Read a blob. -/
def readBlobDescriptor : Proc BinReader BlobDescriptor := do
  let id' ← id
  let generation' ← generation
  let physicalSize ← u64
  let digest ← sha256
  let refcount ← u64
  let byteReferences ← u64
  let tier ← enum
  let provenance ← enum
  let integrity ← enum
  let freshness ← enum
  let replicas ← list id
  pure {
    id := id', generation := generation', physicalSize, digest, refcount, byteReferences, tier
    provenance, integrity, freshness, replicas }

/-- Read a replica. -/
def readReplica : Proc BinReader ReplicaDescriptor := do
  let id' ← id
  let generation' ← generation
  let backendId ← id
  let sourceKind ← enum
  let tier ← enum
  let integrity ← enum
  let role ← enum
  let physicalSize ← u64
  let provenance ← enum
  pure {
    id := id', generation := generation', backendId, sourceKind, tier, integrity, role
    physicalSize, provenance }

/-- Read a placement. -/
def readPlacement : Proc BinReader PlacementDescriptor := do
  let id' ← id
  let generation' ← generation
  let replicaId ← id
  let tierId ← id
  let backendId ← id
  let nodeId ← id
  let volumeId ← id
  let bytes ← u64
  let provenance ← enum
  let freshness ← enum
  pure {
    id := id', generation := generation', replicaId, tierId, backendId, nodeId, volumeId, bytes
    provenance, freshness }

/-- Read a retention policy. -/
def readRetention : Proc BinReader RetentionPolicy := do
  let id' ← id
  let familyId ← id
  let retentionClass ← enum
  let latestN ← u64
  let ttl ← u64
  let protectAncestry ← boolean
  let recomputable ← boolean
  let policyProtected ← boolean
  let generation' ← generation
  let provenance ← enum
  pure {
    id := id', familyId, retentionClass, latestN, ttl := ttl.toInt64, protectAncestry
    recomputable, policyProtected, generation := generation', provenance }

/-- Read a family. -/
def readFamily : Proc BinReader FamilyRecord := do
  let id' ← id
  let familyGeneration ← generation
  let checkpointIds ← list id
  pure { id := id', familyGeneration, checkpointIds }

/-- Read a checkpoint record. -/
def readRecord (period : ClockPeriod) : Proc BinReader CheckpointRecord := do
  let descriptor ← readDescriptor period
  let manifest ← readManifest
  let chunks ← list readChunk
  let replicaSet ← readReplicaSet
  let lifecycle ← enum
  let integrity ← enum
  let freshness ← enum
  pure { descriptor, manifest, chunks, replicaSet, lifecycle, integrity, freshness }

end BinReader

end CheckpointStore
