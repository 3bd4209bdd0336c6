import CheckpointStore.Model.Digest
import CheckpointStore.Model.Enums

/-!
# The records of the store

The structures of `model.hpp` and the two internal records of `impl.hpp`, with the source's
fields and default values. A time point is a 64-bit signed count of system-clock ticks, a
retention time is a 64-bit signed count of seconds.
-/

namespace CheckpointStore

/-- `std::chrono::system_clock::time_point`: a signed count of clock ticks. -/
abbrev TimePoint := Int64

/-- What the producer says about a checkpoint. -/
structure CheckpointDescriptor where
  id : CheckpointId := {}
  familyId : CheckpointFamilyId := {}
  generation : CheckpointGeneration := {}
  kind : CheckpointKind := .full
  logicalSize : UInt64 := 0
  createdAt : TimePoint := 0
  ownerId : OwnerId := {}
  producerBoot : WorkerBootId := {}
  producerGeneration : CheckpointGeneration := {}
  parentCheckpoint : Option CheckpointId := none
  baseCheckpoint : Option CheckpointId := none
  lineage : List CheckpointId := []
  references : List CheckpointId := []
  compatibility : Bytes := []
  retention : RetentionClass := .keepLatestN
  durability : DurabilityClass := .local
  restorePriority : RestorePriority := .normal
  provenance : Provenance := .unknown
  policyGeneration : PolicyGeneration := {}
  requiredReplicaCount : UInt64 := 1

/-- A chunk of a checkpoint. -/
structure ChunkDescriptor where
  id : ChunkId := {}
  generation : ChunkGeneration := {}
  logicalOffset : UInt64 := 0
  logicalSize : UInt64 := 0
  physicalSize : UInt64 := 0
  digest : Digest
  blobId : BlobId := {}
  placements : List PlacementId := []
  refcount : UInt64 := 0
  provenance : Provenance := .unknown
  integrity : IntegrityState := .unknown
  compressed : Bool := false
  payloadEncoding : Bytes := []

/-- A stored object. -/
structure BlobDescriptor where
  id : BlobId := {}
  generation : BlobGeneration := {}
  physicalSize : UInt64 := 0
  digest : Digest
  refcount : UInt64 := 0
  byteReferences : UInt64 := 0
  tier : StorageTierClass := .localFilesystem
  provenance : Provenance := .unknown
  integrity : IntegrityState := .unknown
  freshness : Freshness := .unknown
  replicas : List ReplicaId := []

/-- A chunk and its place in the checkpoint. -/
structure ManifestEntry where
  chunkId : ChunkId := {}
  logicalOffset : UInt64 := 0
  deriving DecidableEq

/-- The list of the chunks of a checkpoint. -/
structure CheckpointManifest where
  id : ManifestId := {}
  generation : ManifestGeneration := {}
  checkpointId : CheckpointId := {}
  checkpointGeneration : CheckpointGeneration := {}
  chunks : List ManifestEntry := []
  logicalSize : UInt64 := 0
  checkpointDigest : Digest
  lineage : List CheckpointId := []
  parent : Option CheckpointId := none
  base : Option CheckpointId := none
  provenance : Provenance := .unknown
  durability : DurabilityClass := .local
  requiredReplicaCount : UInt64 := 1
  semanticDigest : Digest

/-- Where a replica is placed. -/
structure PlacementDescriptor where
  id : PlacementId := {}
  generation : PlacementGeneration := {}
  replicaId : ReplicaId := {}
  tierId : StorageTierId := {}
  backendId : StorageBackendId := {}
  nodeId : StorageNodeId := {}
  volumeId : VolumeId := {}
  bytes : UInt64 := 0
  provenance : Provenance := .unknown
  freshness : Freshness := .unknown

/-- A copy on one backend. -/
structure ReplicaDescriptor where
  id : ReplicaId := {}
  generation : ReplicaGeneration := {}
  backendId : StorageBackendId := {}
  sourceKind : ReplicaSourceKind := .local
  tier : StorageTierClass := .localFilesystem
  integrity : IntegrityState := .unknown
  role : ReplicaRole := .authoritative
  physicalSize : UInt64 := 0
  provenance : Provenance := .unknown

/-- The replicas of a checkpoint. -/
structure ReplicaSet where
  checkpointId : CheckpointId := {}
  generation : CheckpointGeneration := {}
  requiredReplicaCount : UInt64 := 1
  replicas : List ReplicaId := []
  durabilityState : ReplicaDurabilityState := .underReplicated
  placementGeneration : PlacementGeneration := {}
  provenance : Provenance := .unknown

/-- `evaluate_replica_durability`. -/
def evaluateReplicaDurability (requiredCount : UInt64) (replicas : List ReplicaDescriptor) :
    ReplicaDurabilityState :=
  let verified := UInt64.ofNat (replicas.countP fun r => r.integrity = .verified)
  if requiredCount ≤ verified then .healthy
  else if replicas.any fun r => r.integrity = .corrupt then .degraded
  else if replicas.any fun r => r.integrity = .missing then .rebuilding
  else .underReplicated

/-- What is retained, and for how long. -/
structure RetentionPolicy where
  id : RetentionPolicyId := {}
  familyId : CheckpointFamilyId := {}
  retentionClass : RetentionClass := .keepLatestN
  latestN : UInt64 := 0
  ttl : Int64 := 0
  protectAncestry : Bool := true
  recomputable : Bool := false
  policyProtected : Bool := false
  generation : PolicyGeneration := {}
  provenance : Provenance := .unknown

/-- One chunk of a restore. -/
structure RestoreStep where
  checkpointId : CheckpointId := {}
  chunkId : ChunkId := {}
  sourceReplica : ReplicaId := {}
  result : RestoreSourceResult := .success
  integrity : IntegrityState := .unknown

/-- The steps of a restore. -/
structure RestorePlan where
  id : RestorePlanId := {}
  restoreId : RestoreId := {}
  target : CheckpointId := {}
  priority : RestorePriority := .normal
  orderedAncestry : List CheckpointId := []
  steps : List RestoreStep := []
  expectedBytes : UInt64 := 0
  parallelism : UInt64 := 1
  generation : RestoreGeneration := {}
  provenance : Provenance := .unknown

/-- Evidence of a restore, without its wall-clock duration. -/
structure RestoreEvidence where
  restoreId : RestoreId := {}
  sourceCheckpoint : CheckpointId := {}
  sourceManifest : ManifestId := {}
  sourceReplica : ReplicaId := {}
  bytesRestored : UInt64 := 0
  chunksRestored : UInt64 := 0
  dedupHits : UInt64 := 0
  failedSources : List ReplicaId := []
  fallbackSource : Option ReplicaId := none
  integrity : IntegrityState := .unknown
  provenance : Provenance := .unknown
  attemptGeneration : AttemptGeneration := {}

/-- The last collection. -/
structure GcState where
  epoch : GcEpochId := {}
  generation : GcGeneration := {}
  phase : GcPhase := .idle
  reachableBlobs : List BlobId := []
  reclaimableBlobs : List BlobId := []
  markedBytes : UInt64 := 0
  reclaimedBytes : UInt64 := 0
  freshness : Freshness := .unknown

/-- The counters of the store. -/
structure AccountingSnapshot where
  familyCount : UInt64 := 0
  checkpointCount : UInt64 := 0
  committedCheckpointCount : UInt64 := 0
  logicalBytes : UInt64 := 0
  uniquePhysicalBytes : UInt64 := 0
  deduplicatedBytes : UInt64 := 0
  manifestCount : UInt64 := 0
  chunkCount : UInt64 := 0
  blobCount : UInt64 := 0
  blobReferences : UInt64 := 0
  replicaCount : UInt64 := 0
  placementCount : UInt64 := 0
  activeWrites : UInt64 := 0
  activeRestores : UInt64 := 0
  restoredBytes : UInt64 := 0
  gcEligibleCheckpoints : UInt64 := 0
  reclaimedBlobs : UInt64 := 0
  reclaimedBytes : UInt64 := 0
  integrityFailures : UInt64 := 0
  staleRejections : UInt64 := 0
  duplicateRejections : UInt64 := 0
  workerRestarts : UInt64 := 0

/-- `Impl::FamilyRecord`; the checkpoint ids are in creation order. -/
structure FamilyRecord where
  id : CheckpointFamilyId := {}
  familyGeneration : CheckpointFamilyGeneration := {}
  checkpointIds : List CheckpointId := []

/-- `Impl::CheckpointRecord`. -/
structure CheckpointRecord where
  descriptor : CheckpointDescriptor := {}
  manifest : CheckpointManifest
  chunks : List ChunkDescriptor := []
  replicaSet : ReplicaSet := {}
  lifecycle : CheckpointLifecycle := .creating
  integrity : IntegrityState := .unknown
  freshness : Freshness := .unknown

end CheckpointStore
