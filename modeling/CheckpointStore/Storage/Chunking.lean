import CheckpointStore.Model.Digest

/-!
# Fixed-size chunking

After `chunking.hpp` and `chunking.cpp`. The loop of `chunk_stream` is a recursion on a step
bound that starts at the length of the data; every round takes at least one byte, so the bound
is never what ends it. `chunk_stream_flatten` says that no byte is lost, repeated or moved, and
`chunk_stream_offsets` that the ranges are laid end to end. `fixed_chunk_ranges` is a loop of its
own over 64-bit offsets. The two go through the same rounds (`range_loop_eq`), and its offsets do
not wrap around for any size (`range_loop_tiles`). `chunkers_agree` puts this together.
-/

namespace CheckpointStore

/-- Where a chunk is in the data. -/
structure ChunkedRange where
  logicalOffset : UInt64 := 0
  logicalSize : UInt64 := 0
  deriving DecidableEq

/-- A chunk with its bytes and their digest. -/
structure ChunkSlice where
  range : ChunkedRange
  bytes : Bytes
  digest : Digest

/-- `FixedChunker::valid_chunk_size`: between 1 byte and 64 MiB. -/
def validChunkSize (chunkSize : UInt64) : Bool :=
  if chunkSize < 1 then false
  else if 64 * 1024 * 1024 < chunkSize then false
  else true

/-- The loop of `chunk_stream`, at `offset` with `rest` still to be cut. -/
def chunkLoop (H : StreamHash) (take : Nat) : Nat → Nat → Bytes → List ChunkSlice
  | 0, _, _ => []
  | bound + 1, offset, rest =>
      if rest.isEmpty then []
      else
        let piece := rest.take take
        { range := { logicalOffset := UInt64.ofNat offset, logicalSize := byteSize piece }
          bytes := piece
          digest := H.sha256 piece } ::
          chunkLoop H take bound (offset + piece.length) (rest.drop take)

/-- `chunk_stream`. -/
def chunkStream (H : StreamHash) (data : Bytes) (chunkSize : UInt64) :
    Except Exn (List ChunkSlice) :=
  if validChunkSize chunkSize then .ok (chunkLoop H chunkSize.toNat data.length 0 data)
  else .error (.error .invalidArgument "invalid chunk size")

/-- The loop of `fixed_chunk_ranges`. Every round takes at least one byte, so a bound of the size is
never what ends it. -/
def rangeLoop (logicalSize chunkSize : UInt64) : Nat → UInt64 → List ChunkedRange
  | 0, _ => []
  | bound + 1, offset =>
      if offset < logicalSize then
        let remaining := logicalSize - offset
        let take := if remaining < chunkSize then remaining else chunkSize
        { logicalOffset := offset, logicalSize := take } ::
          rangeLoop logicalSize chunkSize bound (offset + take)
      else []

/-- `fixed_chunk_ranges`. -/
def fixedChunkRanges (logicalSize chunkSize : UInt64) : Except Exn (List ChunkedRange) :=
  if validChunkSize chunkSize then
    .ok (if logicalSize = 0 then [] else rangeLoop logicalSize chunkSize logicalSize.toNat 0)
  else .error (.error .invalidArgument "invalid chunk size")

/-- Chunking throws errors of the library only. -/
theorem own_failures_chunk_stream (H : StreamHash) (data : Bytes) (chunkSize : UInt64) :
    OwnFailures (chunkStream H data chunkSize) := by
  unfold chunkStream
  split
  · exact own_failures_ok _
  · exact own_failures_error rfl

/-- A valid chunk size is positive. -/
theorem valid_chunk_size_pos {chunkSize : UInt64} (h : validChunkSize chunkSize = true) :
    0 < chunkSize.toNat := by
  unfold validChunkSize at h
  split at h
  · simp at h
  · next hpos =>
      rw [UInt64.lt_iff_toNat_lt] at hpos
      simp only [UInt64.toNat_one] at hpos
      omega

/-- A valid chunk size is at most 64 MiB. -/
theorem valid_chunk_size_le {chunkSize : UInt64} (h : validChunkSize chunkSize = true) :
    chunkSize.toNat ≤ 64 * 1024 * 1024 := by
  unfold validChunkSize at h
  split at h
  · simp at h
  · split at h
    · simp at h
    · next hle =>
        rw [UInt64.lt_iff_toNat_lt] at hle
        have hmax : (64 * 1024 * 1024 : UInt64).toNat = 64 * 1024 * 1024 := rfl
        omega

/-- Each slice is a non-empty, bounded piece with its own size and digest. -/
structure SliceOk (H : StreamHash) (slice : ChunkSlice) : Prop where
  nonempty : slice.bytes ≠ []
  bounded : slice.bytes.length ≤ 64 * 1024 * 1024
  size_eq : slice.range.logicalSize = byteSize slice.bytes
  digest_eq : slice.digest = H.sha256 slice.bytes

/-- The size of a slice is its length, although it is computed modulo `2 ^ 64`. -/
theorem SliceOk.length_eq {H : StreamHash} {slice : ChunkSlice} (h : SliceOk H slice) :
    slice.bytes.length = (byteSize slice.bytes).toNat :=
  (byte_size_to_nat (Nat.lt_of_le_of_lt h.bounded (by decide))).symm

theorem SliceOk.size_ne_zero {H : StreamHash} {slice : ChunkSlice} (h : SliceOk H slice) :
    byteSize slice.bytes ≠ 0 := by
  intro hzero
  have hlen := h.length_eq
  rw [hzero] at hlen
  exact h.nonempty (List.eq_nil_of_length_eq_zero hlen)

/-- The offsets of the slices, when the first one starts at `offset`. -/
def Contiguous : Nat → List ChunkSlice → Prop
  | _, [] => True
  | offset, slice :: rest =>
      slice.range.logicalOffset = UInt64.ofNat offset ∧
        Contiguous (offset + slice.bytes.length) rest

section Loop

variable {H : StreamHash} {take : Nat}

/-- The chunks in a row are the data. -/
theorem chunk_loop_flatten (htake : 0 < take) {bound offset : Nat} {rest : Bytes}
    (hbound : rest.length ≤ bound) :
    ((chunkLoop H take bound offset rest).map ChunkSlice.bytes).flatten = rest := by
  induction bound generalizing offset rest with
  | zero =>
      have hnil : rest = [] := List.eq_nil_of_length_eq_zero (by omega)
      simp [chunkLoop, hnil]
  | succ bound ih =>
      unfold chunkLoop
      cases rest with
      | nil => simp
      | cons b bs =>
          have hdrop : ((b :: bs).drop take).length ≤ bound := by
            simp only [List.length_drop, List.length_cons] at hbound ⊢
            omega
          simp only [List.isEmpty_cons, Bool.false_eq_true, if_false, List.map_cons,
            List.flatten_cons]
          rw [ih hdrop, List.take_append_drop]

/-- Every chunk of the loop is well formed. -/
theorem chunk_loop_slice_ok (htake : 0 < take) (hmax : take ≤ 64 * 1024 * 1024)
    {bound offset : Nat} {rest : Bytes} {slice : ChunkSlice}
    (h : slice ∈ chunkLoop H take bound offset rest) : SliceOk H slice := by
  induction bound generalizing offset rest with
  | zero => simp [chunkLoop] at h
  | succ bound ih =>
      unfold chunkLoop at h
      split at h
      · simp at h
      · next hrest =>
          rcases List.mem_cons.mp h with rfl | hin
          · refine ⟨?_, Nat.le_trans (List.length_take_le _ _) hmax, rfl, rfl⟩
            cases rest with
            | nil => simp at hrest
            | cons b bs =>
                intro hnil
                rcases List.take_eq_nil_iff.mp hnil with hzero | hempty
                · omega
                · simp at hempty
          · exact ih hin

/-- The loop leaves no gap between two chunks. -/
theorem chunk_loop_contiguous {bound offset : Nat} {rest : Bytes} :
    Contiguous offset (chunkLoop H take bound offset rest) := by
  induction bound generalizing offset rest with
  | zero => trivial
  | succ bound ih =>
      unfold chunkLoop
      split
      · trivial
      · exact ⟨rfl, ih⟩

end Loop

variable {H : StreamHash} {data : Bytes} {chunkSize : UInt64} {slices : List ChunkSlice}

/-- The only way chunking succeeds. -/
theorem chunk_stream_eq (h : chunkStream H data chunkSize = .ok slices) :
    validChunkSize chunkSize = true ∧
      slices = chunkLoop H chunkSize.toNat data.length 0 data := by
  unfold chunkStream at h
  split at h
  · next hvalid =>
      cases h
      exact ⟨hvalid, rfl⟩
  · simp at h

/-- The pieces, put together again, are the data. -/
theorem chunk_stream_flatten (h : chunkStream H data chunkSize = .ok slices) :
    (slices.map ChunkSlice.bytes).flatten = data := by
  obtain ⟨hvalid, rfl⟩ := chunk_stream_eq h
  exact chunk_loop_flatten (valid_chunk_size_pos hvalid) (Nat.le_refl _)

/-- Every chunk is well formed. -/
theorem chunk_stream_slice_ok (h : chunkStream H data chunkSize = .ok slices)
    {slice : ChunkSlice} (hin : slice ∈ slices) : SliceOk H slice := by
  obtain ⟨hvalid, rfl⟩ := chunk_stream_eq h
  exact chunk_loop_slice_ok (valid_chunk_size_pos hvalid) (valid_chunk_size_le hvalid) hin

/-- The ranges start at zero and are laid end to end. -/
theorem chunk_stream_offsets (h : chunkStream H data chunkSize = .ok slices) :
    Contiguous 0 slices := by
  obtain ⟨_, rfl⟩ := chunk_stream_eq h
  exact chunk_loop_contiguous

/-- Every offset lies between the first one and the end of the data. -/
theorem contiguous_bounds {offset : Nat} (h : Contiguous offset slices) {slice : ChunkSlice}
    (hin : slice ∈ slices) :
    ∃ o, slice.range.logicalOffset = UInt64.ofNat o ∧ offset ≤ o ∧
      o ≤ offset + (slices.map ChunkSlice.bytes).flatten.length := by
  induction slices generalizing offset with
  | nil => simp at hin
  | cons first rest ih =>
      obtain ⟨hfirst, hrest⟩ := h
      rw [List.map_cons, List.flatten_cons, List.length_append]
      rcases List.mem_cons.mp hin with rfl | hin
      · exact ⟨offset, hfirst, by omega, by omega⟩
      · obtain ⟨o, ho, hle, hub⟩ := ih hrest hin
        exact ⟨o, ho, by omega, by omega⟩

/-- Below the 64-bit limit the slices are in the order of their offsets. -/
theorem contiguous_sorted {offset : Nat} (h : Contiguous offset slices)
    (hroom : offset + (slices.map ChunkSlice.bytes).flatten.length < 2 ^ 64) :
    slices.Pairwise fun a b => a.range.logicalOffset ≤ b.range.logicalOffset := by
  induction slices generalizing offset with
  | nil => exact .nil
  | cons first rest ih =>
      obtain ⟨hfirst, hrest⟩ := h
      rw [List.map_cons, List.flatten_cons, List.length_append] at hroom
      refine .cons (fun slice hin => ?_) (ih hrest (by omega))
      obtain ⟨o, ho, hle, hub⟩ := contiguous_bounds hrest hin
      rw [hfirst, ho, UInt64.le_iff_toNat_le, UInt64.toNat_ofNat', UInt64.toNat_ofNat',
        Nat.mod_eq_of_lt (by omega), Nat.mod_eq_of_lt (by omega)]
      omega

/-! ## The two chunkers -/

/-- A chunk size between the limits is accepted. -/
theorem valid_chunk_size_of_bounds (hmin : 1 ≤ chunkSize) (hmax : chunkSize ≤ 64 * 1024 * 1024) :
    validChunkSize chunkSize = true := by
  unfold validChunkSize
  rw [if_neg (UInt64.not_lt.mpr hmin), if_neg (UInt64.not_lt.mpr hmax)]

/-- The ranges are not empty and lie end to end from `offset` to `size`, as numbers. -/
def RangesTile (size : Nat) : Nat → List ChunkedRange → Prop
  | offset, [] => offset = size
  | offset, range :: rest =>
      range.logicalOffset.toNat = offset ∧ 0 < range.logicalSize.toNat ∧
        RangesTile size (offset + range.logicalSize.toNat) rest

/-- What one round of `fixed_chunk_ranges` takes, as a number. Adding it does not wrap around. -/
theorem range_take_to_nat {logicalSize chunkSize offset : UInt64} (hoffset : offset < logicalSize) :
    let take := if logicalSize - offset < chunkSize then logicalSize - offset else chunkSize
    take.toNat = min chunkSize.toNat (logicalSize.toNat - offset.toNat) ∧
      (offset + take).toNat = offset.toNat + take.toNat := by
  intro take
  have hlt := UInt64.lt_iff_toNat_lt.mp hoffset
  have hremaining : (logicalSize - offset).toNat = logicalSize.toNat - offset.toNat :=
    UInt64.toNat_sub_of_le _ _ (UInt64.le_of_lt hoffset)
  have htake : take.toNat = min chunkSize.toNat (logicalSize.toNat - offset.toNat) := by
    simp only [take]
    split
    · next h =>
        rw [UInt64.lt_iff_toNat_lt, hremaining] at h
        rw [hremaining]
        omega
    · next h =>
        rw [UInt64.lt_iff_toNat_lt, hremaining] at h
        omega
  refine ⟨htake, ?_⟩
  rw [UInt64.toNat_add, Nat.mod_eq_of_lt]
  have hsize := logicalSize.toNat_lt
  omega

/-- The ranges reach the end of the object, so it is not the bound that ends the loop. -/
theorem range_loop_tiles {logicalSize chunkSize : UInt64} (hchunk : 0 < chunkSize.toNat)
    {bound : Nat} {offset : UInt64} (hoffset : offset.toNat ≤ logicalSize.toNat)
    (hbound : logicalSize.toNat - offset.toNat ≤ bound) :
    RangesTile logicalSize.toNat offset.toNat (rangeLoop logicalSize chunkSize bound offset) := by
  induction bound generalizing offset with
  | zero => exact (by omega : offset.toNat = logicalSize.toNat)
  | succ bound ih =>
      unfold rangeLoop
      split
      · next hlt =>
          obtain ⟨htake, hnext⟩ := @range_take_to_nat logicalSize chunkSize offset hlt
          rw [UInt64.lt_iff_toNat_lt] at hlt
          refine ⟨rfl, by rw [htake]; omega, ?_⟩
          rw [← hnext]
          exact ih (by omega) (by omega)
      · next hge =>
          rw [UInt64.lt_iff_toNat_lt] at hge
          exact (by omega : offset.toNat = logicalSize.toNat)

/-- The two loops go through the same rounds. -/
theorem range_loop_eq {logicalSize chunkSize : UInt64} {bound : Nat} {offset : UInt64}
    {rest : Bytes} (hrest : offset.toNat + rest.length = logicalSize.toNat) :
    rangeLoop logicalSize chunkSize bound offset =
      (chunkLoop H chunkSize.toNat bound offset.toNat rest).map ChunkSlice.range := by
  induction bound generalizing offset rest with
  | zero => rfl
  | succ bound ih =>
      unfold rangeLoop chunkLoop
      by_cases hempty : rest = []
      · have hge : ¬ offset < logicalSize := by
          rw [UInt64.lt_iff_toNat_lt, ← hrest, hempty]
          simp
        rw [if_neg hge, if_pos (by simp [hempty]), List.map_nil]
      · have hpos := List.length_pos_iff.mpr hempty
        have hlt : offset < logicalSize := UInt64.lt_iff_toNat_lt.mpr (by omega)
        obtain ⟨htake, hnext⟩ := @range_take_to_nat logicalSize chunkSize offset hlt
        -- What this round takes is the size of the piece the other loop cuts off.
        have hpiece : (rest.take chunkSize.toNat).length = (if logicalSize - offset < chunkSize
            then logicalSize - offset else chunkSize).toNat := by
          rw [htake, List.length_take, ← hrest, Nat.add_sub_cancel_left]
        have htail := @ih _ (rest.drop chunkSize.toNat)
          (by rw [hnext, ← hpiece, List.length_take, List.length_drop]; omega)
        rw [if_pos hlt, if_neg (by simpa using hempty)]
        dsimp only
        rw [htail, List.map_cons, byteSize, hpiece, ← hnext, UInt64.ofNat_toNat,
          UInt64.ofNat_toNat]

/-- The slice at position `i` is cut off after `i` whole chunks. -/
theorem chunk_loop_get {take : Nat} {bound offset : Nat} {rest : Bytes} {i : Nat}
    {slice : ChunkSlice} (h : (chunkLoop H take bound offset rest)[i]? = some slice) :
    slice.range.logicalOffset = UInt64.ofNat (offset + i * take) ∧
      slice.bytes = (rest.drop (i * take)).take take ∧ i * take < rest.length := by
  induction bound generalizing offset rest i with
  | zero => simp [chunkLoop] at h
  | succ bound ih =>
      unfold chunkLoop at h
      split at h
      · simp at h
      · next hrest =>
          have hpos : 0 < rest.length := List.length_pos_iff.mpr (by simpa using hrest)
          cases i with
          | zero =>
              cases h
              exact ⟨by simp, by simp, by omega⟩
          | succ i =>
              obtain ⟨hoffset, hbytes, hlt⟩ := ih (by simpa using h)
              rw [List.length_drop] at hlt
              -- There is a further slice, so this one is a whole chunk.
              have hpiece : min take rest.length = take := by omega
              rw [Nat.succ_mul]
              refine ⟨?_, ?_, by omega⟩
              · rw [hoffset, hpiece]
                congr 1
                omega
              · rw [hbytes, List.drop_drop, Nat.add_comm take]

/-- What the chunker says of the slice at position `i` out of `count`. -/
structure SlicePlaced (H : StreamHash) (chunkSize : UInt64) (count i : Nat) (slice : ChunkSlice) :
    Prop where
  offset_eq : slice.range.logicalOffset.toNat = i * chunkSize.toNat
  size_eq : slice.range.logicalSize.toNat = slice.bytes.length
  whole : i + 1 < count → slice.bytes.length = chunkSize.toNat
  nonempty : 1 ≤ slice.bytes.length
  bounded : slice.bytes.length ≤ chunkSize.toNat
  digest_eq : slice.digest = H.sha256 slice.bytes

theorem chunk_stream_placed (h : chunkStream H data chunkSize = .ok slices)
    (hdata : data.length < 2 ^ 64) {i : Nat} {slice : ChunkSlice} (hget : slices[i]? = some slice) :
    SlicePlaced H chunkSize slices.length i slice := by
  have hok := chunk_stream_slice_ok h (List.mem_of_getElem? hget)
  obtain ⟨hvalid, rfl⟩ := chunk_stream_eq h
  obtain ⟨hoffset, hbytes, hlt⟩ := chunk_loop_get hget
  have hlength : slice.bytes.length =
      min chunkSize.toNat (data.length - i * chunkSize.toNat) := by
    rw [hbytes, List.length_take, List.length_drop]
  refine ⟨?_, ?_, fun hnext => ?_, ?_, ?_, hok.digest_eq⟩
  · rw [hoffset, Nat.zero_add, UInt64.toNat_ofNat', Nat.mod_eq_of_lt (by omega)]
  · rw [hok.size_eq, ← hok.length_eq]
  · -- The next slice starts inside the data.
    have hnextlt := (chunk_loop_get (List.getElem?_eq_getElem hnext)).2.2
    rw [Nat.succ_mul] at hnextlt
    omega
  · exact List.length_pos_iff.mpr hok.nonempty
  · omega

/-- Both chunkers, at every chunk size they accept. `chunk_stream` cuts the data into pieces at the
multiples of the chunk size, and `fixed_chunk_ranges` gives the ranges of these pieces. The latter
covers an object of any 64-bit size from end to end. -/
theorem chunkers_agree (H : StreamHash) (chunkSize : UInt64) (hmin : 1 ≤ chunkSize)
    (hmax : chunkSize ≤ 64 * 1024 * 1024) :
    (∀ data : Bytes, data.length < 2 ^ 64 → ∃ slices,
      chunkStream H data chunkSize = .ok slices ∧
      (slices.map ChunkSlice.bytes).flatten = data ∧
      (∀ i slice, slices[i]? = some slice → SlicePlaced H chunkSize slices.length i slice) ∧
      fixedChunkRanges (byteSize data) chunkSize = .ok (slices.map ChunkSlice.range)) ∧
    ∀ logicalSize : UInt64, ∃ ranges,
      fixedChunkRanges logicalSize chunkSize = .ok ranges ∧
      RangesTile logicalSize.toNat 0 ranges := by
  have hvalid := valid_chunk_size_of_bounds hmin hmax
  -- For an empty object the loop would not be entered either.
  have hranges : ∀ logicalSize, fixedChunkRanges logicalSize chunkSize =
      .ok (rangeLoop logicalSize chunkSize logicalSize.toNat 0) := by
    intro logicalSize
    unfold fixedChunkRanges
    rw [if_pos hvalid]
    split
    · next hzero => rw [hzero]; rfl
    · rfl
  constructor
  · intro data hdata
    have hslices : chunkStream H data chunkSize =
        .ok (chunkLoop H chunkSize.toNat data.length 0 data) := by
      unfold chunkStream
      rw [if_pos hvalid]
    refine ⟨_, hslices, chunk_stream_flatten hslices,
      fun i slice hget => chunk_stream_placed hslices hdata hget, ?_⟩
    have hsize := byte_size_to_nat hdata
    rw [hranges, hsize]
    exact congrArg _ (range_loop_eq (by rw [hsize]; exact Nat.zero_add _))
  · intro logicalSize
    exact ⟨_, hranges logicalSize, @range_loop_tiles logicalSize chunkSize
      (valid_chunk_size_pos hvalid) _ 0 (Nat.zero_le _) (Nat.sub_le _ _)⟩

/-- Five bytes in chunks of two. -/
theorem chunkers_agree_on_five_bytes :
    let H := StreamHash.ofFunction fun _ => Digest.zero
    ∃ slices, chunkStream H [1, 2, 3, 4, 5] 2 = .ok slices ∧
      (slices.map ChunkSlice.bytes).flatten = [1, 2, 3, 4, 5] ∧
      (∀ i slice, slices[i]? = some slice → SlicePlaced H 2 slices.length i slice) ∧
      fixedChunkRanges (byteSize [1, 2, 3, 4, 5]) 2 = .ok (slices.map ChunkSlice.range) :=
  (chunkers_agree (StreamHash.ofFunction fun _ => Digest.zero) 2 (by decide) (by decide)).1
    [1, 2, 3, 4, 5] (by decide)

end CheckpointStore
