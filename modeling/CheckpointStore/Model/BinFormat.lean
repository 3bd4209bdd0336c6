import CheckpointStore.Model.Records

/-!
# The binary format

After `binformat.hpp` and `binformat.cpp`. `BinWriter` functions give the bytes that a call of
the writer appends, so a sequence of calls is a concatenation. `BinReader` functions move a
cursor over a view and throw when the view is too short. All integers are little-endian.
-/

namespace CheckpointStore

open Foundation Foundation.Procedure

/-- `system_clock::period`: how a time point counts. -/
inductive ClockPeriod where
  | nanoseconds | hundredNanoseconds
  deriving DecidableEq

/-- Clock ticks in a millisecond. -/
def ClockPeriod.perMillisecond : ClockPeriod → Int64
  | .nanoseconds => 1000000
  | .hundredNanoseconds => 10000

namespace BinWriter

/-- `put_le`: the low `width` bytes, least significant first. -/
def putLe (v : UInt64) (width : Nat) : Bytes :=
  (List.range width).map fun i => (v >>> UInt64.ofNat (8 * i)).toUInt8

/-- One byte. -/
def u8 (v : UInt8) : Bytes := [v]

/-- A 32-bit number, little endian. -/
def u32 (v : UInt32) : Bytes := putLe v.toUInt64 4

/-- A 64-bit number, little endian. -/
def u64 (v : UInt64) : Bytes := putLe v 8

/-- A signed number, by its bit pattern. -/
def i64 (v : Int64) : Bytes := putLe v.toUInt64 8

/-- A flag as one byte. -/
def boolean (v : Bool) : Bytes := u8 (if v then 1 else 0)

/-- A byte string with its length in front. -/
def bytes (v : Bytes) : Bytes := u64 (byteSize v) ++ v

/-- A string, with its length before it. -/
def string (v : Bytes) : Bytes := bytes v

/-- Bytes without a length. -/
def bytesFixed (v : Bytes) : Bytes := v

/-- An identifier. -/
def id {kind : IdKind} (v : BasicId kind) : Bytes := u64 v.value

/-- A generation. -/
def generation {kind : GenerationKind} (v : BasicGeneration kind) : Bytes := u64 v.value

/-- A digest, without a length. -/
def sha256 (v : Digest) : Bytes := v.bytes

/-- An enumeration, cast to its underlying byte. -/
def enum {α : Type} [ByteEnum α] (v : α) : Bytes := u8 (ByteEnum.toByte v)

/-- Milliseconds since the epoch, rounded towards zero. -/
def timePoint (period : ClockPeriod) (tp : TimePoint) : Bytes := i64 (tp / period.perMillisecond)

/-- `static_cast<std::uint32_t>` of a container size. -/
def count (n : Nat) : Bytes := u32 (UInt32.ofNat n)

/-- A count followed by the elements. -/
def list {α : Type} (write : α → Bytes) (xs : List α) : Bytes :=
  count xs.length ++ xs.flatMap write

/-- A presence flag followed by the value, if any. -/
def optional {α : Type} (write : α → Bytes) : Option α → Bytes
  | none => boolean false
  | some a => boolean true ++ write a

end BinWriter

/-- A view and the position of the next byte. -/
structure BinReader where
  view : Bytes
  pos : Nat := 0

namespace BinReader

/-- The number of bytes not yet read. -/
def remaining (r : BinReader) : Nat := r.view.length - r.pos

/-- `get_le`. -/
def getLe (view : Bytes) (pos width : Nat) : Except Exn UInt64 :=
  if view.length < pos + width then .error (.error .truncated "binary reader underflow")
  else .ok ((List.range width).foldl
    (fun v i => v ||| ((view.getD (pos + i) 0).toUInt64 <<< UInt64.ofNat (8 * i))) 0)

/-- The next `width` bytes as a number. -/
def word (width : Nat) : Proc BinReader UInt64 := fun r =>
  match getLe r.view r.pos width with
  | .ok v => .ok v { r with pos := r.pos + width }
  | .error e => .error e r

/-- `bytes_fixed`: `require(n)`, then the next `n` bytes. -/
def bytesFixed (n : Nat) : Proc BinReader Bytes := fun r =>
  if r.remaining < n then .error (.error .truncated "binary reader underflow") r
  else .ok ((r.view.drop r.pos).take n) { r with pos := r.pos + n }

/-- Read a byte. -/
def u8 : Proc BinReader UInt8 := do
  let b ← bytesFixed 1
  pure (b.headD 0)

/-- Read a 16-bit number. -/
def u16 : Proc BinReader UInt16 := do
  let v ← word 2
  pure v.toUInt16

/-- Read a 32-bit number. -/
def u32 : Proc BinReader UInt32 := do
  let v ← word 4
  pure v.toUInt32

/-- Read a 64-bit number. -/
def u64 : Proc BinReader UInt64 := word 8

/-- Read a signed number. -/
def i64 : Proc BinReader Int64 := do
  let v ← u64
  pure v.toInt64

/-- Read a flag: every byte but 0 is true. -/
def boolean : Proc BinReader Bool := do
  let v ← u8
  pure (v != 0)

/-- Read a length and as many bytes. -/
def bytes : Proc BinReader Bytes := do
  let n ← u64
  bytesFixed n.toNat

/-- Read a string. -/
def string : Proc BinReader Bytes := bytes

/-- Read an identifier. -/
def id {kind : IdKind} : Proc BinReader (BasicId kind) := do
  let v ← u64
  pure ⟨v⟩

/-- Read a generation. -/
def generation {kind : GenerationKind} : Proc BinReader (BasicGeneration kind) := do
  let v ← u64
  pure ⟨v⟩

/-- A byte string of any length, cut or filled with zeros to the 32 bytes of a digest. -/
def digestOf (b : Bytes) : Digest where
  bytes := (b ++ List.replicate 32 0).take 32
  length_eq := by simp

/-- Read the 32 bytes of a digest. -/
def sha256 : Proc BinReader Digest := do
  let b ← bytesFixed 32
  pure (digestOf b)

/-- Read an enumerator; no byte is refused. -/
def enum {α : Type} [ByteEnum α] : Proc BinReader α := do
  let v ← u8
  pure (ByteEnum.ofByte v)

/-- Read milliseconds and convert them to the ticks of the clock. -/
def timePoint (period : ClockPeriod) : Proc BinReader TimePoint := do
  let ms ← i64
  pure (ms * period.perMillisecond)

/-- Pass over some bytes. -/
def skip (n : Nat) : Proc BinReader Unit := fun r =>
  if r.remaining < n then .error (.error .truncated "binary reader underflow") r
  else .ok () { r with pos := r.pos + n }

/-- `kMaxRecords`. -/
def maxRecords : Nat := 2 ^ 22

/-- `decode_count(r.u32(), kMaxRecords)`. -/
def count : Proc BinReader Nat := do
  let n ← u32
  if maxRecords < n.toNat then throwStoreError .malformed "count exceeds bound"
  else pure n.toNat

/-- The loop that reads `n` elements. -/
def repeated {α : Type} (read : Proc BinReader α) : Nat → Proc BinReader (List α)
  | 0 => pure []
  | n + 1 => do
      let a ← read
      let rest ← repeated read n
      pure (a :: rest)

/-- A count followed by the elements. -/
def list {α : Type} (read : Proc BinReader α) : Proc BinReader (List α) := do
  let n ← count
  repeated read n

/-- A presence flag followed by the value, if any. -/
def optional {α : Type} (read : Proc BinReader α) : Proc BinReader (Option α) := do
  let present ← boolean
  if present then do
    let a ← read
    pure (some a)
  else pure none

end BinReader

end CheckpointStore
