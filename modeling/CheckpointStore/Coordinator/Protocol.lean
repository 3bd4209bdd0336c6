import CheckpointStore.Model.BinFormat

/-!
# Requests to the coordinator

The message kinds of `protocol.hpp` and the payloads of `proto_ops.hpp`. A payload is decoded
from the front; bytes behind what a request needs are ignored. Requests that carry authority have
it in front, so `envelope_of_read` finds the same envelope in all of them.
-/

namespace CheckpointStore

open Foundation Foundation.Procedure

/-- The kinds of messages. -/
inductive MessageKind where
  | heartbeat | registerBackend | createFamily | publish | verify | restore | retire | gcRun
  | save | status | retain | advanceEpoch | ack | nack | bye
  deriving DecidableEq

/-- The authority carried on mutating requests. -/
structure AuthorityEnvelope where
  boot : UInt64 := 0
  epoch : UInt64 := 0
  generation : UInt64 := 0
  deriving DecidableEq

/-- The payload of `kPublish`. -/
structure PublishRequest where
  auth : AuthorityEnvelope
  family : UInt64 := 0
  fill : UInt8 := 65
  size : UInt64 := 0

namespace ProtoOps

variable {α : Type}

/-! ## Encoding -/

/-- Write an envelope. -/
def encodeAuthority (a : AuthorityEnvelope) : Bytes :=
  BinWriter.u64 a.boot ++ BinWriter.u64 a.epoch ++ BinWriter.u64 a.generation

/-- A reply with one number. -/
def encodeU64 (v : UInt64) : Bytes := BinWriter.u64 v

/-- Write the payload of `kPublish`. -/
def encodePublish (a : AuthorityEnvelope) (family : UInt64) (fill : UInt8) (size : UInt64) :
    Bytes :=
  encodeAuthority a ++ BinWriter.u64 family ++ BinWriter.u8 fill ++ BinWriter.u64 size

/-- The reply to `kPublish`. -/
def encodePublishReply (id chunks dedupHits dedupMisses : UInt64) : Bytes :=
  BinWriter.u64 id ++ BinWriter.u64 chunks ++ BinWriter.u64 dedupHits ++ BinWriter.u64 dedupMisses

/-- The payload of restore, retire and collection requests. -/
def encodeRestore (a : AuthorityEnvelope) (id : UInt64) : Bytes :=
  encodeAuthority a ++ BinWriter.u64 id

/-- The reply to `kRestore`. -/
def encodeRestoreReply (integrity bytes : UInt64) : Bytes :=
  BinWriter.u64 integrity ++ BinWriter.u64 bytes

/-- Write the payload of `kRegisterBackend`. -/
def encodeRegister (boot : UInt64) (root : Bytes) : Bytes :=
  BinWriter.u64 boot ++ BinWriter.string root

/-- Write the payload of `kRetain`. -/
def encodeRetain (family latestN : UInt64) : Bytes :=
  BinWriter.u64 family ++ BinWriter.u64 latestN

/-- `static_cast<std::uint32_t>` of an error code. -/
def codeNumber : ErrorCode → UInt32
  | .none => 0 | .invalidArgument => 1 | .notFound => 2 | .alreadyExists => 3 | .conflict => 4
  | .staleAuthority => 5 | .staleGeneration => 6 | .permissionDenied => 7 | .notSupported => 8
  | .capacityExceeded => 9 | .integrity => 10 | .corrupt => 11 | .checksumMismatch => 12
  | .digestMismatch => 13 | .truncated => 14 | .badMagic => 15 | .unsupportedVersion => 16
  | .malformed => 17 | .missing => 18 | .overflow => 19 | .io => 20 | .backendUnavailable => 21
  | .transaction => 22 | .gcConcurrency => 23 | .quarantined => 24 | .retry => 25
  | .deadlock => 26 | .internal => 27

/-- The reply to a refused request. -/
def encodeNack (code : ErrorCode) (message : String) : Bytes :=
  BinWriter.u32 (codeNumber code) ++ BinWriter.string (ascii message.toList)

/-! ## Decoding -/

/-- Read from the front of a payload. -/
def decode (read : Proc BinReader α) (payload : Bytes) : Except Exn α :=
  match read { view := payload } with
  | .ok a _ => .ok a
  | .error e _ => .error e

/-- Read an envelope. -/
def readAuthority : Proc BinReader AuthorityEnvelope := do
  let boot ← BinReader.u64
  let epoch ← BinReader.u64
  let generation ← BinReader.u64
  pure { boot, epoch, generation }

/-- Read the payload of `kPublish`. -/
def readPublish : Proc BinReader PublishRequest := do
  let auth ← readAuthority
  let family ← BinReader.u64
  let fill ← BinReader.u8
  let size ← BinReader.u64
  pure { auth, family, fill, size }

/-- Read an envelope and a checkpoint. -/
def readRestore : Proc BinReader (AuthorityEnvelope × UInt64) := do
  let auth ← readAuthority
  let id ← BinReader.u64
  pure (auth, id)

/-- Read the payload of `kRegisterBackend`. -/
def readRegister : Proc BinReader (UInt64 × Bytes) := do
  let boot ← BinReader.u64
  let root ← BinReader.string
  pure (boot, root)

/-- Read the payload of `kRetain`. -/
def readRetain : Proc BinReader (UInt64 × UInt64) := do
  let family ← BinReader.u64
  let latestN ← BinReader.u64
  pure (family, latestN)

/-- The envelope in front of a payload. -/
def envelopeOf (payload : Bytes) : Option AuthorityEnvelope :=
  (decode readAuthority payload).toOption

/-- What a reader that starts with the authority has read as such is the envelope. -/
theorem envelope_of_read {f : AuthorityEnvelope → Proc BinReader α} {authOf : α → AuthorityEnvelope}
    (hf : ∀ auth r, Post (f auth) r (fun a _ => authOf a = auth) fun _ _ => True)
    {payload : Bytes} {a : α} (h : decode (readAuthority >>= f) payload = .ok a) :
    envelopeOf payload = some (authOf a) := by
  unfold envelopeOf decode at *
  change (match EStateM.bind readAuthority f { view := payload } with
    | .ok a _ => Except.ok a
    | .error e _ => Except.error e) = Except.ok a at h
  unfold EStateM.bind at h
  cases hauth : readAuthority { view := payload } with
  | error e r =>
      rw [hauth] at h
      simp at h
  | ok auth r =>
      rw [hauth] at h
      cases hrest : f auth r with
      | error e r' => simp [hrest] at h
      | ok a' r' =>
          simp only [hrest, Except.ok.injEq] at h
          subst h
          rw [(hf auth r).of_ok hrest]
          rfl

/-- Whatever a reader reads, if only the rest matters. -/
theorem post_reads {m : Proc BinReader α} {r : BinReader} {Q : α → BinReader → Prop}
    (h : ∀ a r', Q a r') : Post m r Q fun _ _ => True :=
  post_of_runs (fun a r' _ => h a r') fun _ _ _ => trivial

/-- The envelope of a publication is the first part of its payload. -/
theorem envelope_of_publish {payload : Bytes} {req : PublishRequest}
    (h : decode readPublish payload = .ok req) : envelopeOf payload = some req.auth := by
  refine (envelope_of_read (fun auth r => ?_) h : _ = some (PublishRequest.auth req))
  simp only [post_bind, post_pure]
  exact post_reads fun _ _ => post_reads fun _ _ => post_reads fun _ _ => trivial

theorem envelope_of_restore {payload : Bytes} {req : AuthorityEnvelope × UInt64}
    (h : decode readRestore payload = .ok req) : envelopeOf payload = some req.1 := by
  refine (envelope_of_read (fun auth r => ?_) h : _ = some (Prod.fst req))
  simp only [post_bind, post_pure]
  exact post_reads fun _ _ => trivial

end ProtoOps

end CheckpointStore
