import CheckpointStore.Persistence.RecordCodec
import CheckpointStore.Store.State
import Mathlib.Data.List.Sort

/-!
# The state file

`save_state` and `load_state` of `persistence.cpp`, with the file helpers they use. The body
lists every container in a canonical order; the frame adds a magic number, a version, the body
length, a CRC-32 and a digest. Loading assigns to the store while it reads, so a load that
throws leaves the store as far as it got.
-/

namespace CheckpointStore

open Foundation Foundation.Procedure

variable {W : Type}

/-! ## Writing -/

/-- `std::string` comparison: bytewise lexicographic. -/
def bytesLess : Bytes → Bytes → Bool
  | _, [] => false
  | [], _ :: _ => true
  | a :: as, b :: bs => a < b || (a == b && bytesLess as bs)

/-- The values of a container, sorted by a 64-bit key. -/
def sortedByKey {K V : Type} (key : V → UInt64) (m : UnorderedMap K V) : List V :=
  m.values.insertionSort fun a b => key a ≤ key b

/-- The dedup entries, sorted by the hexadecimal digest. -/
def sortedDedup (t : DedupTable) : List (Digest × DedupEntry) :=
  t.snapshot.insertionSort fun a b => bytesLess (hex b.1) (hex a.1) = false

/-- A dedup entry, as `save_state` writes it. -/
def BinWriter.writeDedup (entry : Digest × DedupEntry) : Bytes :=
  sha256 entry.1 ++ u64 entry.2.physicalSize ++ u64 entry.2.refcount ++ enum entry.2.integrity ++
    id entry.2.blobId ++ generation entry.2.generation

/-- The scalar fields at the front of the body. -/
def headerBytes (store : Store W) : Bytes :=
  BinWriter.u64 store.coordinatorEpoch.value ++ BinWriter.id store.options.bootId ++
    BinWriter.u64 store.nextIdCounter ++ BinWriter.u64 store.counters.integrityFailures ++
    BinWriter.u64 store.counters.staleRejections ++
    BinWriter.u64 store.counters.duplicateRejections ++
    BinWriter.u64 store.counters.workerRestarts ++ BinWriter.u64 store.counters.reclaimedBlobs ++
    BinWriter.u64 store.counters.reclaimedBytes ++ BinWriter.u64 store.counters.restoredBytes

/-- The garbage-collection fields of the body. -/
def gcBytes (gc : GcState) : Bytes :=
  BinWriter.id gc.epoch ++ BinWriter.generation gc.generation ++ BinWriter.enum gc.phase ++
    BinWriter.u64 gc.markedBytes ++ BinWriter.u64 gc.reclaimedBytes

/-- The body that `save_state` writes. -/
def stateBody (period : ClockPeriod) (store : Store W) : Bytes :=
  headerBytes store ++
    BinWriter.list BinWriter.writeFamily
      (sortedByKey (fun f => f.id.value) store.families) ++
    BinWriter.list (BinWriter.writeRecord period)
      (sortedByKey (fun r => r.descriptor.id.value) store.checkpoints) ++
    BinWriter.list BinWriter.writeBlobDescriptor
      (sortedByKey (fun b => b.id.value) store.blobs) ++
    BinWriter.list BinWriter.writeReplica
      (sortedByKey (fun r => r.id.value) store.replicas) ++
    BinWriter.list BinWriter.writePlacement
      (sortedByKey (fun p => p.id.value) store.placements) ++
    BinWriter.list BinWriter.writeRetention
      (sortedByKey (fun p => p.id.value) store.retention) ++
    gcBytes store.gc ++
    BinWriter.list BinWriter.writeDedup (sortedDedup store.dedup)

/-- The magic of a state file. -/
def frameMagic : Bytes := ascii ['C', 'P', 'S', 'T']

/-- `kFormatVersion`. -/
def formatVersion : UInt32 := 1

/-- `kMaxBodyBytes`. -/
def maxBodyBytes : UInt32 := 0x80000000

/-- The frame around a body. -/
def stateFrame (H : StreamHash) (body : Bytes) : Bytes :=
  BinWriter.bytesFixed frameMagic ++ BinWriter.u32 formatVersion ++
    BinWriter.count body.length ++ BinWriter.bytesFixed body ++ BinWriter.u32 (crc32 body) ++
    BinWriter.sha256 (H.sha256 body)

/-- How the file system answers the calls of one `atomic_write_file`, and the clock reading in
the name of the temporary file. -/
structure WriteAnswers where
  stamp : Bytes := []
  opened : Bool := true
  written : Bool := true
  removed : Bool := true
  renamed : Bool := true

/-- Change the files. -/
def modifyFiles (f : UnorderedMap Bytes Bytes → UnorderedMap Bytes Bytes) :
    Proc (System W) Unit :=
  modify fun s => { s with files := f s.files }

/-- The path of the temporary file. -/
def tempPath (path stamp : Bytes) : Bytes := path ++ ascii ['.', 't', 'm', 'p', '.'] ++ stamp

/-- `detail::atomic_write_file`. -/
def atomicWriteFile (answers : WriteAnswers) (path data : Bytes) : Proc (System W) Unit := do
  let tmp := tempPath path answers.stamp
  if answers.opened = false then throwStoreError .io "cannot open state temp for write"
  else if answers.written = false then do
    modifyFiles fun files => files.erase tmp
    throwStoreError .io "state temp write failed"
  else do
    modifyFiles fun files => files.assign tmp data
    -- The target is removed first, so a rename that fails leaves no file at the path.
    modifyFiles fun files => if answers.removed then files.erase path else files
    if answers.renamed = false then throwStoreError .io "state rename failed"
    else modifyFiles fun files => (files.erase tmp).assign path data

/-- `CheckpointStore::save_state`. -/
def saveState (env : Env) (answers : WriteAnswers) : Proc (System W) Unit := do
  let s ← get
  atomicWriteFile answers s.store.options.statePath
    (stateFrame env.hash (stateBody env.period s.store))

/-! ## Reading -/

/-- `detail::read_file`. -/
def readFile (path : Bytes) : Proc (System W) Bytes := do
  let s ← get
  match s.files.find path with
  | none => throwStoreError .notFound "state file not found"
  | some raw => pure raw

/-- The checks on the frame, up to the body. -/
def openFrame (H : StreamHash) : Proc BinReader Bytes := do
  let magic ← BinReader.bytesFixed 4
  if magic ≠ frameMagic then throwStoreError .badMagic "state magic mismatch"
  else do
    let version ← BinReader.u32
    if version ≠ formatVersion then
      throwStoreError .unsupportedVersion "state version unsupported"
    else do
      let bodyLen ← BinReader.u32
      if maxBodyBytes < bodyLen then throwStoreError .malformed "state body too large"
      else do
        let body ← BinReader.bytesFixed bodyLen.toNat
        let storedCrc ← BinReader.u32
        let storedDigest ← BinReader.sha256
        let frame ← get
        if frame.remaining ≠ 0 then throwStoreError .malformed "state trailing garbage"
        else if crc32 body ≠ storedCrc then
          throwStoreError .checksumMismatch "state body checksum mismatch"
        else if H.sha256 body ≠ storedDigest then
          throwStoreError .digestMismatch "state body digest mismatch"
        else pure body

/-- The state while a body is being loaded. -/
structure Loading (W : Type) where
  reader : BinReader
  store : Store W

section Lifting

variable {α : Type}

/-- Read from the body. -/
def fromBody (m : Proc BinReader α) : Proc (Loading W) α :=
  zoom Loading.reader (fun r ld => { ld with reader := r }) m

/-- Change the store that is being loaded. -/
def loadInto (f : Store W → Store W) : Proc (Loading W) Unit :=
  modify fun ld => { ld with store := f ld.store }

/-- Read a value and assign it. -/
def loadField (m : Proc BinReader α) (assign : α → Store W → Store W) :
    Proc (Loading W) Unit := do
  let a ← fromBody m
  loadInto (assign a)

/-- Run a loop body a number of times. -/
def loadTimes (body : Proc (Loading W) Unit) : Nat → Proc (Loading W) Unit
  | 0 => pure ()
  | n + 1 => do
      body
      loadTimes body n

/-- Read a count and that many elements. An element whose key is taken is refused, any other
is entered. -/
def loadList (read : Proc BinReader α) (taken : α → Store W → Bool) (message : String)
    (enter : α → Store W → Store W) : Proc (Loading W) Unit := do
  let n ← fromBody BinReader.count
  loadTimes (do
    let a ← fromBody read
    let ld ← get
    if taken a ld.store then throwStoreError .malformed message
    else loadInto (enter a)) n

end Lifting

/-- What `load_state` resets before it reads the body. -/
def resetForLoad (store : Store W) : Store W :=
  { store with
    nextIdCounter := 1000, counters := {}, families := ∅, checkpoints := ∅, blobs := ∅
    replicas := ∅, placements := ∅, retention := ∅, gc := {} }

/-- Change the counters of a store. -/
def Store.withCounters (f : AccountingSnapshot → AccountingSnapshot) (store : Store W) : Store W :=
  { store with counters := f store.counters }

/-- Change the garbage-collection state of a store. -/
def Store.withGc (f : GcState → GcState) (store : Store W) : Store W :=
  { store with gc := f store.gc }

/-- The scalar fields at the front of the body. -/
def loadHeader : Proc (Loading W) Unit := do
  loadField BinReader.u64 fun v store => { store with coordinatorEpoch := ⟨v⟩ }
  loadField BinReader.id fun v store =>
    { store with options := { store.options with bootId := v } }
  loadField BinReader.u64 fun v store => { store with nextIdCounter := v }
  loadField BinReader.u64 fun v => Store.withCounters fun c => { c with integrityFailures := v }
  loadField BinReader.u64 fun v => Store.withCounters fun c => { c with staleRejections := v }
  loadField BinReader.u64 fun v => Store.withCounters fun c => { c with duplicateRejections := v }
  loadField BinReader.u64 fun v => Store.withCounters fun c => { c with workerRestarts := v }
  loadField BinReader.u64 fun v => Store.withCounters fun c => { c with reclaimedBlobs := v }
  loadField BinReader.u64 fun v => Store.withCounters fun c => { c with reclaimedBytes := v }
  loadField BinReader.u64 fun v => Store.withCounters fun c => { c with restoredBytes := v }

/-- Enter a family; its next generation is 1. -/
def enterFamily (f : FamilyRecord) (store : Store W) : Store W :=
  { store with
    families := store.families.emplace f.id f
    nextCheckpointGeneration := store.nextCheckpointGeneration.assign f.id ⟨1⟩ }

/-- Enter a loaded record and raise the next generation of its family to the record's. -/
def enterRecord (rec : CheckpointRecord) (store : Store W) : Store W :=
  let family := rec.descriptor.familyId
  let next := (store.nextCheckpointGeneration.find family).getD {}
  { store with
    checkpoints := store.checkpoints.emplace rec.descriptor.id rec
    nextCheckpointGeneration := store.nextCheckpointGeneration.assign family
      (if next.precedes rec.descriptor.generation then rec.descriptor.generation else next) }

/-- Advance the next generation of every family. -/
def advanceGenerations (store : Store W) : Store W :=
  { store with
    nextCheckpointGeneration := store.nextCheckpointGeneration.mapValues fun _ ng => ng.next }

/-- Enter a blob. -/
def enterBlob (b : BlobDescriptor) (store : Store W) : Store W :=
  { store with blobs := store.blobs.emplace b.id b }

/-- Enter a replica. -/
def enterReplica (r : ReplicaDescriptor) (store : Store W) : Store W :=
  { store with replicas := store.replicas.emplace r.id r }

/-- Enter a placement. -/
def enterPlacement (p : PlacementDescriptor) (store : Store W) : Store W :=
  { store with placements := store.placements.emplace p.id p }

/-- Enter a policy. -/
def enterRetention (p : RetentionPolicy) (store : Store W) : Store W :=
  { store with retention := store.retention.emplace p.id p }

/-- Enter a dedup entry. -/
def enterDedup (e : DedupEntry) (store : Store W) : Store W :=
  { store with dedup := store.dedup.insertBlobEntryDirect e }

/-- A dedup entry as `load_state` reads it. -/
def BinReader.readDedup : Proc BinReader DedupEntry := do
  let digest ← sha256
  let physicalSize ← u64
  let refcount ← u64
  let integrity ← enum
  let blobId ← id
  let generation' ← generation
  pure { blobId, digest, physicalSize, refcount, integrity, generation := generation' }

/-- The garbage-collection fields of the body. -/
def loadGc : Proc (Loading W) Unit := do
  loadField BinReader.id fun v => Store.withGc fun gc => { gc with epoch := v }
  loadField BinReader.generation fun v => Store.withGc fun gc => { gc with generation := v }
  loadField BinReader.enum fun v => Store.withGc fun gc => { gc with phase := v }
  loadField BinReader.u64 fun v => Store.withGc fun gc => { gc with markedBytes := v }
  loadField BinReader.u64 fun v => Store.withGc fun gc => { gc with reclaimedBytes := v }

/-- The counters that are recomputed at the end of a load. -/
def recomputeCounters (store : Store W) : Store W :=
  let recs := store.checkpoints.values
  let logicalBytes := recs.foldl (fun total rec => total + rec.descriptor.logicalSize) 0
  let uniquePhysicalBytes := store.dedup.uniquePhysicalBytes
  { store with counters := { store.counters with
      familyCount := UInt64.ofNat store.families.size
      checkpointCount := UInt64.ofNat store.checkpoints.size
      manifestCount := UInt64.ofNat store.checkpoints.size
      blobCount := UInt64.ofNat store.blobs.size
      replicaCount := UInt64.ofNat store.replicas.size
      placementCount := UInt64.ofNat store.placements.size
      chunkCount := recs.foldl (fun total rec => total + UInt64.ofNat rec.chunks.length) 0
      logicalBytes := logicalBytes
      committedCheckpointCount :=
        UInt64.ofNat (recs.countP fun rec => rec.lifecycle = .committed)
      uniquePhysicalBytes := uniquePhysicalBytes
      deduplicatedBytes :=
        if uniquePhysicalBytes ≤ logicalBytes then logicalBytes - uniquePhysicalBytes else 0
      blobReferences := UInt64.ofNat store.dedup.size } }

/-- Load the families. -/
def loadFamilies : Proc (Loading W) Unit :=
  loadList BinReader.readFamily (fun f store => store.families.contains f.id)
    "duplicate family id in state" enterFamily

/-- Load the checkpoint records. -/
def loadRecords (period : ClockPeriod) : Proc (Loading W) Unit :=
  loadList (BinReader.readRecord period)
    (fun rec store => store.checkpoints.contains rec.descriptor.id)
    "duplicate checkpoint id in state" enterRecord

/-- Load the blobs. -/
def loadBlobs : Proc (Loading W) Unit :=
  loadList BinReader.readBlobDescriptor (fun b store => store.blobs.contains b.id)
    "duplicate blob id in state" enterBlob

/-- Load the replicas. -/
def loadReplicas : Proc (Loading W) Unit :=
  loadList BinReader.readReplica (fun r store => store.replicas.contains r.id)
    "duplicate replica id in state" enterReplica

/-- Load the placements. -/
def loadPlacements : Proc (Loading W) Unit :=
  loadList BinReader.readPlacement (fun p store => store.placements.contains p.id)
    "duplicate placement id in state" enterPlacement

/-- Load the policies. -/
def loadRetention : Proc (Loading W) Unit :=
  loadList BinReader.readRetention (fun p store => store.retention.contains p.id)
    "duplicate retention id in state" enterRetention

/-- Load the dedup table. -/
def loadDedup : Proc (Loading W) Unit :=
  loadList BinReader.readDedup (fun e store => store.dedup.contains e.digest)
    "duplicate dedup entry in state" enterDedup

/-- Everything up to the end of the body. Proofs know it by what it loads and never run it
symbolically. -/
@[irreducible] def loadTables (period : ClockPeriod) : Proc (Loading W) Unit := do
  loadInto resetForLoad
  loadHeader
  loadFamilies
  loadRecords period
  loadInto advanceGenerations
  loadBlobs
  loadReplicas
  loadPlacements
  loadRetention
  loadGc
  loadDedup

/-- Rebuild the store from a body. -/
def loadBody (period : ClockPeriod) : Proc (Loading W) Unit := do
  loadTables period
  let ld ← get
  if ld.reader.remaining ≠ 0 then throwStoreError .malformed "state body trailing garbage"
  else loadInto recomputeCounters

/-- Run a loader on a body; the store keeps what was assigned before a throw. -/
def onBody (body : Bytes) (m : Proc (Loading W) Unit) : Proc (System W) Unit := fun s =>
  match m { reader := { view := body }, store := s.store } with
  | .ok a ld => .ok a { s with store := ld.store }
  | .error e ld => .error e { s with store := ld.store }

/-- Check a frame and return its body. -/
def readBody (H : StreamHash) (raw : Bytes) : Except Exn Bytes :=
  if raw.length < 4 + 4 + 4 + 4 + 32 then
    .error (.error .truncated "state frame too small")
  else match openFrame H { view := raw } with
    | .ok body _ => .ok body
    | .error e _ => .error e

/-- `CheckpointStore::load_state`. -/
def loadState (env : Env) : Proc (System W) Unit := do
  let s ← get
  let raw ← readFile s.store.options.statePath
  let body ← fromExcept (readBody env.hash raw)
  onBody body (loadBody env.period)

end CheckpointStore
