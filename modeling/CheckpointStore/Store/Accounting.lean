import CheckpointStore.Store.State

/-!
# Accounting

The figures of `accounting.cpp` that are computed on demand. Logical bytes are the sizes that the
descriptors of committed checkpoints declare, physical bytes the sizes of the dedup entries.
Nothing in the source writes the table of reservations, so nothing is reserved.
-/

namespace CheckpointStore

open Foundation

variable {W : Type}

/-- The figures on deduplication. -/
structure DedupAccounting where
  logicalBytes : UInt64 := 0
  uniquePhysicalBytes : UInt64 := 0
  deduplicatedBytes : UInt64 := 0

/-- The report on capacity. -/
structure CapacityReport where
  totalBytes : UInt64 := 0
  freeBytes : UInt64 := 0
  reservedBytes : UInt64 := 0
  committedBytes : UInt64 := 0
  reclaimableBytes : UInt64 := 0
  logicalBytes : UInt64 := 0
  deduplicatedBytes : UInt64 := 0
  freshness : Freshness := .unknown
  provenance : Provenance := .unknown

/-- The loop of both reports over the checkpoints. -/
def logicalBytes (store : Store W) : UInt64 :=
  store.checkpoints.values.foldl
    (fun total rec => total +
      if rec.lifecycle = .committed then rec.descriptor.logicalSize else 0) 0

/-- What sharing saves. -/
def savedBytes (logical unique : UInt64) : UInt64 :=
  if unique ≤ logical then logical - unique else 0

/-- `CheckpointStore::dedup_accounting`. -/
def dedupAccounting (store : Store W) : DedupAccounting where
  logicalBytes := logicalBytes store
  uniquePhysicalBytes := store.dedup.uniquePhysicalBytes
  deduplicatedBytes := savedBytes (logicalBytes store) store.dedup.uniquePhysicalBytes

/-- `CheckpointStore::capacity_report`, when the primary backend is registered and answers
`primary`, or is not registered. -/
def capacityReport (primary : Option TierMetadata) (store : Store W) : CapacityReport :=
  let tier := primary.getD {}
  { totalBytes := tier.totalBytes
    freeBytes := tier.freeBytes
    provenance := tier.provenance
    freshness := tier.freshness
    committedBytes := store.dedup.uniquePhysicalBytes
    logicalBytes := logicalBytes store
    deduplicatedBytes := savedBytes (logicalBytes store) store.dedup.uniquePhysicalBytes
    reclaimableBytes := store.gc.reclaimableBlobs.foldl
      (fun total id => total + ((store.blobs.find id).map BlobDescriptor.physicalSize).getD 0) 0 }

end CheckpointStore
