import CheckpointStore.Model.Base

/-!
# Enumerations stored in one byte

The enumerations of `model.hpp`. Each is stored as its underlying `std::uint8_t`, and
`static_cast` from a byte accepts every value, so each type has a constructor `unnamed` for
the bytes beyond the named values. `ByteEnum` states that the two casts are inverse.
-/

namespace CheckpointStore

/-- An enumeration with a one-byte underlying type. -/
class ByteEnum (α : Type) where
  toByte : α → UInt8
  ofByte : UInt8 → α
  of_byte_to_byte : ∀ a, ofByte (toByte a) = a

/-- `static_cast` from a byte: one of the named values in declaration order, or a value
without a name. -/
def enumOfByte {α : Type} (names : List α) (unnamed : (v : UInt8) → names.length ≤ v.toNat → α)
    (v : UInt8) : α :=
  if h : v.toNat < names.length then names[v.toNat] else unnamed v (Nat.le_of_not_lt h)

/-- A byte beyond the named values is kept as it is. -/
theorem enum_of_byte_unnamed {α : Type} {names : List α}
    {unnamed : (v : UInt8) → names.length ≤ v.toNat → α} {v : UInt8}
    (h : names.length ≤ v.toNat) : enumOfByte names unnamed v = unnamed v h := by
  simp [enumOfByte, Nat.not_lt.mpr h]

/-- How a checkpoint depends on others. -/
inductive CheckpointKind where
  | full | incremental | differential | sharded | synthetic
  | unnamed (v : UInt8) (h : 5 ≤ v.toNat)
  deriving DecidableEq

instance : ByteEnum CheckpointKind where
  toByte
    | .full => 0 | .incremental => 1 | .differential => 2 | .sharded => 3 | .synthetic => 4
    | .unnamed v _ => v
  ofByte := enumOfByte [.full, .incremental, .differential, .sharded, .synthetic] .unnamed
  of_byte_to_byte a := by
    cases a with
    | unnamed v h => apply enum_of_byte_unnamed
    | _ => rfl

/-- Lifecycle states. Only publication makes a checkpoint `committed`. -/
inductive CheckpointLifecycle where
  | creating | writing | verifying | committed | degraded | stale | invalidated | restoring
  | retired | gcEligible | deleted | failed
  | unnamed (v : UInt8) (h : 12 ≤ v.toNat)
  deriving DecidableEq

instance : ByteEnum CheckpointLifecycle where
  toByte
    | .creating => 0 | .writing => 1 | .verifying => 2 | .committed => 3 | .degraded => 4
    | .stale => 5 | .invalidated => 6 | .restoring => 7 | .retired => 8 | .gcEligible => 9
    | .deleted => 10 | .failed => 11
    | .unnamed v _ => v
  ofByte := enumOfByte [.creating, .writing, .verifying, .committed, .degraded, .stale,
    .invalidated, .restoring, .retired, .gcEligible, .deleted, .failed] .unnamed
  of_byte_to_byte a := by
    cases a with
    | unnamed v h => apply enum_of_byte_unnamed
    | _ => rfl

/-- What is known about the integrity of an object. -/
inductive IntegrityState where
  | unknown | unverified | verified | corrupt | missing
  | unnamed (v : UInt8) (h : 5 ≤ v.toNat)
  deriving DecidableEq

instance : ByteEnum IntegrityState where
  toByte
    | .unknown => 0 | .unverified => 1 | .verified => 2 | .corrupt => 3 | .missing => 4
    | .unnamed v _ => v
  ofByte := enumOfByte [.unknown, .unverified, .verified, .corrupt, .missing] .unnamed
  of_byte_to_byte a := by
    cases a with
    | unnamed v h => apply enum_of_byte_unnamed
    | _ => rfl

/-- Where a figure comes from. -/
inductive Provenance where
  | measured | reported | derived | synthetic | unknown
  | unnamed (v : UInt8) (h : 5 ≤ v.toNat)
  deriving DecidableEq

instance : ByteEnum Provenance where
  toByte
    | .measured => 0 | .reported => 1 | .derived => 2 | .synthetic => 3 | .unknown => 4
    | .unnamed v _ => v
  ofByte := enumOfByte [.measured, .reported, .derived, .synthetic, .unknown] .unnamed
  of_byte_to_byte a := by
    cases a with
    | unnamed v h => apply enum_of_byte_unnamed
    | _ => rfl

/-- The class of a storage tier. -/
inductive StorageTierClass where
  | localFilesystem | localNvmeClass | sharedFilesystemClass | objectStorageClass
  | remoteBlockClass | archivalClass | syntheticRemote | unknown
  | unnamed (v : UInt8) (h : 8 ≤ v.toNat)
  deriving DecidableEq

instance : ByteEnum StorageTierClass where
  toByte
    | .localFilesystem => 0 | .localNvmeClass => 1 | .sharedFilesystemClass => 2
    | .objectStorageClass => 3 | .remoteBlockClass => 4 | .archivalClass => 5
    | .syntheticRemote => 6 | .unknown => 7
    | .unnamed v _ => v
  ofByte := enumOfByte [.localFilesystem, .localNvmeClass, .sharedFilesystemClass,
    .objectStorageClass, .remoteBlockClass, .archivalClass, .syntheticRemote, .unknown] .unnamed
  of_byte_to_byte a := by
    cases a with
    | unnamed v h => apply enum_of_byte_unnamed
    | _ => rfl

/-- The durability of a replica set. -/
inductive ReplicaDurabilityState where
  | underReplicated | healthy | degraded | rebuilding | failed
  | unnamed (v : UInt8) (h : 5 ≤ v.toNat)
  deriving DecidableEq

instance : ByteEnum ReplicaDurabilityState where
  toByte
    | .underReplicated => 0 | .healthy => 1 | .degraded => 2 | .rebuilding => 3 | .failed => 4
    | .unnamed v _ => v
  ofByte := enumOfByte [.underReplicated, .healthy, .degraded, .rebuilding, .failed] .unnamed
  of_byte_to_byte a := by
    cases a with
    | unnamed v h => apply enum_of_byte_unnamed
    | _ => rfl

/-- The priority of a restore. -/
inductive RestorePriority where
  | critical | high | normal | low | background
  | unnamed (v : UInt8) (h : 5 ≤ v.toNat)
  deriving DecidableEq

instance : ByteEnum RestorePriority where
  toByte
    | .critical => 0 | .high => 1 | .normal => 2 | .low => 3 | .background => 4
    | .unnamed v _ => v
  ofByte := enumOfByte [.critical, .high, .normal, .low, .background] .unnamed
  of_byte_to_byte a := by
    cases a with
    | unnamed v h => apply enum_of_byte_unnamed
    | _ => rfl

/-- What a retention policy retains. -/
inductive RetentionClass where
  | pinned | keepLatestN | ttl | ancestryRequired | restorePoint | recomputable | gcEligible
  | unnamed (v : UInt8) (h : 7 ≤ v.toNat)
  deriving DecidableEq

instance : ByteEnum RetentionClass where
  toByte
    | .pinned => 0 | .keepLatestN => 1 | .ttl => 2 | .ancestryRequired => 3
    | .restorePoint => 4 | .recomputable => 5 | .gcEligible => 6
    | .unnamed v _ => v
  ofByte := enumOfByte [.pinned, .keepLatestN, .ttl, .ancestryRequired, .restorePoint,
    .recomputable, .gcEligible] .unnamed
  of_byte_to_byte a := by
    cases a with
    | unnamed v h => apply enum_of_byte_unnamed
    | _ => rfl

/-- How fresh a figure is. -/
inductive Freshness where
  | current | stale | revalidationRequired | unknown
  | unnamed (v : UInt8) (h : 4 ≤ v.toNat)
  deriving DecidableEq

instance : ByteEnum Freshness where
  toByte
    | .current => 0 | .stale => 1 | .revalidationRequired => 2 | .unknown => 3
    | .unnamed v _ => v
  ofByte := enumOfByte [.current, .stale, .revalidationRequired, .unknown] .unnamed
  of_byte_to_byte a := by
    cases a with
    | unnamed v h => apply enum_of_byte_unnamed
    | _ => rfl

/-- The durability asked for a checkpoint. -/
inductive DurabilityClass where
  | unknown | ephemeral | «local» | replicated | archival
  | unnamed (v : UInt8) (h : 5 ≤ v.toNat)
  deriving DecidableEq

instance : ByteEnum DurabilityClass where
  toByte
    | .unknown => 0 | .ephemeral => 1 | .local => 2 | .replicated => 3 | .archival => 4
    | .unnamed v _ => v
  ofByte := enumOfByte [.unknown, .ephemeral, .local, .replicated, .archival] .unnamed
  of_byte_to_byte a := by
    cases a with
    | unnamed v h => apply enum_of_byte_unnamed
    | _ => rfl

/-- The kind of backend behind a replica. -/
inductive ReplicaSourceKind where
  | «local» | syntheticRemote | syntheticObject | syntheticArchive
  | unnamed (v : UInt8) (h : 4 ≤ v.toNat)
  deriving DecidableEq

instance : ByteEnum ReplicaSourceKind where
  toByte
    | .local => 0 | .syntheticRemote => 1 | .syntheticObject => 2 | .syntheticArchive => 3
    | .unnamed v _ => v
  ofByte := enumOfByte [.local, .syntheticRemote, .syntheticObject, .syntheticArchive] .unnamed
  of_byte_to_byte a := by
    cases a with
    | unnamed v h => apply enum_of_byte_unnamed
    | _ => rfl

/-- The role of a replica. -/
inductive ReplicaRole where
  | authoritative | secondary | candidate | quarantined
  | unnamed (v : UInt8) (h : 4 ≤ v.toNat)
  deriving DecidableEq

instance : ByteEnum ReplicaRole where
  toByte
    | .authoritative => 0 | .secondary => 1 | .candidate => 2 | .quarantined => 3
    | .unnamed v _ => v
  ofByte := enumOfByte [.authoritative, .secondary, .candidate, .quarantined] .unnamed
  of_byte_to_byte a := by
    cases a with
    | unnamed v h => apply enum_of_byte_unnamed
    | _ => rfl

/-- The phase of a collection. -/
inductive GcPhase where
  | idle | snapshotting | marking | sweeping | complete | failed
  | unnamed (v : UInt8) (h : 6 ≤ v.toNat)
  deriving DecidableEq

instance : ByteEnum GcPhase where
  toByte
    | .idle => 0 | .snapshotting => 1 | .marking => 2 | .sweeping => 3 | .complete => 4
    | .failed => 5
    | .unnamed v _ => v
  ofByte := enumOfByte [.idle, .snapshotting, .marking, .sweeping, .complete, .failed] .unnamed
  of_byte_to_byte a := by
    cases a with
    | unnamed v h => apply enum_of_byte_unnamed
    | _ => rfl

/-- How one restore step ended; used in plans only and never stored. -/
inductive RestoreSourceResult where
  | success | corrupt | missing | unavailable | fallback
  deriving DecidableEq

end CheckpointStore
