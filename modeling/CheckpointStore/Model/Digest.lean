import CheckpointStore.Model.Base

/-!
# Digests, content addresses and checksums

After `crypto/hash.hpp`, `hash.cpp` and the address helpers of `model.cpp`. The hash function
is a `StreamHash`: a hasher that is fed piecewise, with the law that feeding pieces is feeding
their concatenation. Everything built on it is therefore independent of which 32-byte hash is
in use. `blob_key_injective` says that different digests are stored under different keys,
although blobs and chunks are *identified* by the first eight bytes only.
-/

namespace CheckpointStore

/-- `Sha256Digest`: 32 bytes. -/
structure Digest where
  bytes : Bytes
  length_eq : bytes.length = 32
  deriving DecidableEq

/-- A value-initialised digest. -/
def Digest.zero : Digest := ⟨List.replicate 32 0, rfl⟩

theorem Digest.ext_bytes {a b : Digest} (h : a.bytes = b.bytes) : a = b := by
  cases a; cases b; cases h; rfl

/-- A streaming hash with the interface of `Sha256Hasher`. -/
structure StreamHash where
  State : Type
  init : State
  update : State → Bytes → State
  final : State → Digest
  /-- Feeding the pieces one after the other is feeding their concatenation at once. -/
  final_foldl : ∀ parts : List Bytes,
    final (parts.foldl update init) = final (update init parts.flatten)

/-- The one-shot hash (`crypto::sha256`). -/
def StreamHash.sha256 (H : StreamHash) (data : Bytes) : Digest :=
  H.final (H.update H.init data)

/-- A hash given as a plain function: the hasher collects its input. -/
def StreamHash.ofFunction (f : Bytes → Digest) : StreamHash where
  State := Bytes
  init := []
  update collected piece := collected ++ piece
  final := f
  final_foldl parts := by
    have hcollect : ∀ (acc : Bytes) (parts : List Bytes),
        parts.foldl (fun collected piece => collected ++ piece) acc = acc ++ parts.flatten := by
      intro acc parts
      induction parts generalizing acc with
      | nil => simp
      | cons piece rest ih => simp [ih]
    rw [hcollect]

/-! ## Hexadecimal names and backend keys -/

/-- The character of a nibble in `kHex`. -/
def hexDigit (nibble : UInt8) : UInt8 :=
  (ascii ['0', '1', '2', '3', '4', '5', '6', '7', '8', '9', 'a', 'b', 'c', 'd', 'e', 'f']).getD
    nibble.toNat 0

/-- The two lower-case hexadecimal digits of a byte. -/
def hexByte (b : UInt8) : Bytes := [hexDigit (b >>> 4), hexDigit (b &&& 0x0F)]

/-- `crypto::hex`. -/
def hex (d : Digest) : Bytes := d.bytes.flatMap hexByte

/-- A backend-relative storage key. -/
structure BackendKey where
  value : Bytes
  deriving DecidableEq

/-- `blob_prefix`: the first two characters of the hexadecimal digest. -/
def blobPrefix (d : Digest) : Bytes := (hex d).take 2

/-- `blob_key`, and `blob_key_for` of the restore path: the key a blob is stored under. -/
def blobKey (d : Digest) : BackendKey :=
  ⟨ascii ['b', 'l', 'o', 'b', 's', '/'] ++ blobPrefix d ++ ascii ['/'] ++ hex d⟩

/-- The sixteen hexadecimal digits are distinct. -/
theorem hex_digit_injective {a b : UInt8} (ha : a.toNat < 16) (hb : b.toNat < 16)
    (h : hexDigit a = hexDigit b) : a = b := by
  have hdistinct : ∀ m < 16, ∀ n < 16,
      hexDigit (UInt8.ofNat m) = hexDigit (UInt8.ofNat n) → m = n := by decide
  have hnat := hdistinct a.toNat ha b.toNat hb (by simpa using h)
  exact UInt8.toNat_inj.mp hnat

/-- A byte is determined by its two hexadecimal digits. -/
theorem hex_byte_injective {a b : UInt8} (h : hexByte a = hexByte b) : a = b := by
  simp only [hexByte, List.cons.injEq, and_true] at h
  obtain ⟨hhigh, hlow⟩ := h
  have hshift : ∀ c : UInt8, (c >>> 4).toNat = c.toNat / 16 := by
    intro c
    simp [UInt8.toNat_shiftRight, Nat.shiftRight_eq_div_pow]
  have hmask : ∀ c : UInt8, (c &&& 0x0F).toNat = c.toNat % 16 := by
    intro c
    rw [UInt8.toNat_and]
    exact Nat.and_two_pow_sub_one_eq_mod c.toNat 4
  have hlt : ∀ c : UInt8, c.toNat < 256 := fun c => c.toNat_lt
  have h1 := hex_digit_injective (by rw [hshift]; have := hlt a; omega)
    (by rw [hshift]; have := hlt b; omega) hhigh
  have h2 := hex_digit_injective (by rw [hmask]; omega) (by rw [hmask]; omega) hlow
  have hhigh' : a.toNat / 16 = b.toNat / 16 := by rw [← hshift, ← hshift, h1]
  have hlow' : a.toNat % 16 = b.toNat % 16 := by rw [← hmask, ← hmask, h2]
  exact UInt8.toNat_inj.mp (by omega)

/-- Different digests have different hexadecimal names. -/
theorem hex_injective {a b : Digest} (h : hex a = hex b) : a = b := by
  have hbytes : ∀ xs ys : Bytes, xs.flatMap hexByte = ys.flatMap hexByte → xs = ys := by
    intro xs
    induction xs with
    | nil =>
        intro ys h
        cases ys with
        | nil => rfl
        | cons y ys => simp [hexByte] at h
    | cons x xs ih =>
        intro ys h
        cases ys with
        | nil => simp [hexByte] at h
        | cons y ys =>
            rw [List.flatMap_cons, List.flatMap_cons] at h
            obtain ⟨hhead, htail⟩ := List.append_inj h rfl
            rw [hex_byte_injective hhead, ih ys htail]
  exact Digest.ext_bytes (hbytes _ _ h)

/-- A digest is written with 64 characters. -/
theorem hex_length (d : Digest) : (hex d).length = 64 := by
  simp [hex, hexByte, List.length_flatMap, d.length_eq]

/-- Different digests are stored under different keys. -/
theorem blob_key_injective {a b : Digest} (h : blobKey a = blobKey b) : a = b := by
  have hvalue := congrArg BackendKey.value h
  simp only [blobKey] at hvalue
  exact hex_injective (List.append_inj_right' hvalue (by rw [hex_length, hex_length]))

/-! ## Identities derived from a digest -/

/-- The first eight bytes of a digest as a big-endian number. -/
def leadingWord (d : Digest) : UInt64 :=
  (d.bytes.take 8).foldl (fun value b => (value <<< 8) ||| b.toUInt64) 0

/-- The shared body of `blob_id_from_digest` and `chunk_id_from_digest`: the leading word,
with the null value replaced by 1. -/
def idFromDigest {kind : IdKind} (d : Digest) : BasicId kind :=
  ⟨if leadingWord d = 0 then 1 else leadingWord d⟩

/-- `blob_id_from_digest`. -/
def blobIdFromDigest (d : Digest) : BlobId := idFromDigest d

/-- `chunk_id_from_digest`. -/
def chunkIdFromDigest (d : Digest) : ChunkId := idFromDigest d

/-! ## CRC-32 -/

/-- One bit of the CRC-32 update. -/
def crc32Bit (crc : UInt32) : UInt32 :=
  (crc >>> 1) ^^^ (0xEDB88320 &&& (0 - (crc &&& 1)))

/-- One byte of the CRC-32 update: eight bit steps. -/
def crc32Byte (crc : UInt32) (b : UInt8) : UInt32 :=
  crc32Bit (crc32Bit (crc32Bit (crc32Bit
    (crc32Bit (crc32Bit (crc32Bit (crc32Bit (crc ^^^ b.toUInt32))))))))

/-- `crypto::crc32`. -/
def crc32 (data : Bytes) (seed : UInt32 := 0) : UInt32 :=
  data.foldl crc32Byte (seed ^^^ 0xFFFFFFFF) ^^^ 0xFFFFFFFF

end CheckpointStore
