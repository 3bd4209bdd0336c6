import CheckpointStore.Foundation.Procedure
import Mathlib.Algebra.Group.Nat.Defs
import Mathlib.Data.List.Basic

/-!
# Identities, generations, errors and bytes

The value types every other module uses, after `base/strong.hpp`, `identity/*.hpp`,
`base/error.hpp` and `base/byte.hpp`. Identities and generations wrap a 64-bit value and are
indexed by what they identify, so two kinds cannot be mixed. All arithmetic on them is the
wrapping arithmetic of `std::uint64_t`.
-/

namespace CheckpointStore

open Foundation

/-- What an identity identifies (the `Tag` parameter of `BasicId`). -/
inductive IdKind where
  | checkpoint | checkpointFamily | manifest | chunk | blob | replica | placement
  | storageTier | storageBackend | storageNode | volume | restore | restorePlan
  | gcEpoch | retentionPolicy | owner | workerBoot
  deriving DecidableEq

/-- A strong identity. The value 0 is the null identity. -/
structure BasicId (kind : IdKind) where
  value : UInt64 := 0
  deriving DecidableEq, Inhabited

instance {kind : IdKind} : LawfulBEq (BasicId kind) := inferInstance

/-- Names a checkpoint. -/
abbrev CheckpointId := BasicId .checkpoint

/-- Names a family of checkpoints. -/
abbrev CheckpointFamilyId := BasicId .checkpointFamily

/-- Names a manifest. -/
abbrev ManifestId := BasicId .manifest

/-- Names a chunk. -/
abbrev ChunkId := BasicId .chunk

/-- Names a blob. -/
abbrev BlobId := BasicId .blob

/-- Names a replica. -/
abbrev ReplicaId := BasicId .replica

/-- Names a placement. -/
abbrev PlacementId := BasicId .placement

/-- Names a storage tier. -/
abbrev StorageTierId := BasicId .storageTier

/-- Names a storage backend. -/
abbrev StorageBackendId := BasicId .storageBackend

/-- Names a storage node. -/
abbrev StorageNodeId := BasicId .storageNode

/-- Names a volume. -/
abbrev VolumeId := BasicId .volume

/-- Names a restore. -/
abbrev RestoreId := BasicId .restore

/-- Names a restore plan. -/
abbrev RestorePlanId := BasicId .restorePlan

/-- Names a collection. -/
abbrev GcEpochId := BasicId .gcEpoch

/-- Names a retention policy. -/
abbrev RetentionPolicyId := BasicId .retentionPolicy

/-- Names an owner. -/
abbrev OwnerId := BasicId .owner

/-- Names a boot of a worker. -/
abbrev WorkerBootId := BasicId .workerBoot

/-- Two identities of one kind are equal when their values are. -/
theorem BasicId.ext_value {kind : IdKind} {a b : BasicId kind} (h : a.value = b.value) :
    a = b := by
  cases a; cases b; cases h; rfl

/-- What a generation counts (the `Tag` parameter of `BasicGeneration`). -/
inductive GenerationKind where
  | coordinatorEpoch | checkpoint | checkpointFamily | manifest | chunk | blob | replica
  | placement | restore | gc | attempt | policy
  deriving DecidableEq

/-- A strong generation; a default-constructed generation is 1. -/
structure BasicGeneration (kind : GenerationKind) where
  value : UInt64 := 1
  deriving DecidableEq, Inhabited

/-- Epoch of the coordinator. -/
abbrev CoordinatorEpoch := BasicGeneration .coordinatorEpoch

/-- Generation of a checkpoint. -/
abbrev CheckpointGeneration := BasicGeneration .checkpoint

/-- Generation of a family. -/
abbrev CheckpointFamilyGeneration := BasicGeneration .checkpointFamily

/-- Generation of a manifest. -/
abbrev ManifestGeneration := BasicGeneration .manifest

/-- Generation of a chunk. -/
abbrev ChunkGeneration := BasicGeneration .chunk

/-- Generation of a blob. -/
abbrev BlobGeneration := BasicGeneration .blob

/-- Generation of a replica. -/
abbrev ReplicaGeneration := BasicGeneration .replica

/-- Generation of a placement. -/
abbrev PlacementGeneration := BasicGeneration .placement

/-- Generation of a restore. -/
abbrev RestoreGeneration := BasicGeneration .restore

/-- Generation of a collection. -/
abbrev GcGeneration := BasicGeneration .gc

/-- Generation of an attempt. -/
abbrev AttemptGeneration := BasicGeneration .attempt

/-- Generation of a policy. -/
abbrev PolicyGeneration := BasicGeneration .policy

namespace BasicGeneration

variable {kind : GenerationKind}

/-- Strictly earlier. -/
def precedes (a b : BasicGeneration kind) : Bool := a.value < b.value

/-- The same generation. -/
def equalTo (a b : BasicGeneration kind) : Bool := a.value == b.value

/-- The following generation, wrapping at 64 bits. -/
def next (a : BasicGeneration kind) : BasicGeneration kind := ⟨a.value + 1⟩

end BasicGeneration

/-- The error categories of `ErrorCode`. -/
inductive ErrorCode where
  | none | invalidArgument | notFound | alreadyExists | conflict | staleAuthority
  | staleGeneration | permissionDenied | notSupported | capacityExceeded | integrity | corrupt
  | checksumMismatch | digestMismatch | truncated | badMagic | unsupportedVersion | malformed
  | missing | overflow | io | backendUnavailable | transaction | gcConcurrency | quarantined
  | retry | deadlock | internal
  deriving DecidableEq

/-- A thrown exception: a `CheckpointStoreError`, or any other C++ exception, such as the
`std::length_error` of a vector or whatever a backend raises. -/
inductive Exn where
  | error (code : ErrorCode) (message : String)
  | foreign
  deriving DecidableEq

/-- An error that the store makes itself: all its messages are literals of at most a hundred
characters. -/
def Exn.own : Exn → Bool
  | .error _ message => message.length ≤ 100
  | .foreign => false

/-- A computation that fails only with errors of the store's own. -/
def OwnFailures {α : Type} (x : Except Exn α) : Prop := ∀ e, x = .error e → e.own = true

theorem own_failures_ok {α : Type} (a : α) : OwnFailures (.ok a) := fun _ he => by cases he

/-- An error of the library is one of its own failures. -/
theorem own_failures_error {α : Type} {e : Exn} (h : e.own = true) :
    OwnFailures (.error e : Except Exn α) := fun _ he => by cases he; exact h

/-- An exception of another kind is not the store's own. -/
theorem ne_foreign_of_own {e : Exn} (h : e.own = true) : e ≠ .foreign := by
  rintro rfl
  cases h

/-- A procedure over the state `σ` that may throw. -/
abbrev Proc (σ α : Type) := EStateM Exn σ α

/-- `throw_error`. -/
def throwStoreError {σ α : Type} (code : ErrorCode) (message : String) : Proc σ α :=
  throw (.error code message)

/-- `Bytes` and `ByteView`: a byte string. `std::string` values are byte strings too. -/
abbrev Bytes := List UInt8

/-- `size()` of a byte string as the 64-bit value the program computes with. -/
def byteSize (b : Bytes) : UInt64 := UInt64.ofNat b.length

/-- The bytes of an ASCII literal. -/
def ascii (text : List Char) : Bytes := text.map fun c => UInt8.ofNat c.toNat

@[simp] theorem byte_size_nil : byteSize [] = 0 := rfl

/-- Sizes add up, modulo the width of `std::uint64_t`. -/
theorem byte_size_append (a b : Bytes) : byteSize (a ++ b) = byteSize a + byteSize b := by
  simp [byteSize]

/-- Below the 64-bit limit the size is the length. -/
theorem byte_size_to_nat {b : Bytes} (h : b.length < 2 ^ 64) :
    (byteSize b).toNat = b.length := by
  simpa [byteSize] using h

end CheckpointStore
