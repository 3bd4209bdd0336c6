import CheckpointStore.Model.Digest

/-!
# The streaming SHA-256 hasher

After `Sha256Hasher` in `hash.cpp`. The hasher keeps the eight chaining words, the bytes of the
unfinished block and the total length. `update_update` says that feeding two pieces is feeding
their concatenation, which makes the hasher a `StreamHash` (`sha256Hash`).
-/

namespace CheckpointStore

/-- `kRoundConstants`. -/
def roundConstants : List UInt32 := [
  0x428a2f98, 0x71374491, 0xb5c0fbcf, 0xe9b5dba5, 0x3956c25b, 0x59f111f1,
  0x923f82a4, 0xab1c5ed5, 0xd807aa98, 0x12835b01, 0x243185be, 0x550c7dc3,
  0x72be5d74, 0x80deb1fe, 0x9bdc06a7, 0xc19bf174, 0xe49b69c1, 0xefbe4786,
  0x0fc19dc6, 0x240ca1cc, 0x2de92c6f, 0x4a7484aa, 0x5cb0a9dc, 0x76f988da,
  0x983e5152, 0xa831c66d, 0xb00327c8, 0xbf597fc7, 0xc6e00bf3, 0xd5a79147,
  0x06ca6351, 0x14292967, 0x27b70a85, 0x2e1b2138, 0x4d2c6dfc, 0x53380d13,
  0x650a7354, 0x766a0abb, 0x81c2c92e, 0x92722c85, 0xa2bfe8a1, 0xa81a664b,
  0xc24b8b70, 0xc76c51a3, 0xd192e819, 0xd6990624, 0xf40e3585, 0x106aa070,
  0x19a4c116, 0x1e376c08, 0x2748774c, 0x34b0bcb5, 0x391c0cb3, 0x4ed8aa4a,
  0x5b9cca4f, 0x682e6ff3, 0x748f82ee, 0x78a5636f, 0x84c87814, 0x8cc70208,
  0x90befffa, 0xa4506ceb, 0xbef9a3f7, 0xc67178f2]

/-- Rotate a word to the right. -/
def rotr (x n : UInt32) : UInt32 := (x >>> n) ||| (x <<< (32 - n))

/-- Eight words: the chaining state, and the variables `a` to `h` of a transform. -/
structure HashWords where
  a : UInt32
  b : UInt32
  c : UInt32
  d : UInt32
  e : UInt32
  f : UInt32
  g : UInt32
  h : UInt32
  deriving DecidableEq

/-- The initial chaining state. -/
def HashWords.initial : HashWords where
  a := 0x6a09e667
  b := 0xbb67ae85
  c := 0x3c6ef372
  d := 0xa54ff53a
  e := 0x510e527f
  f := 0x9b05688c
  g := 0x1f83d9ab
  h := 0x5be0cd19

/-- The big-endian word at position `i` of a block. -/
def blockWord (block : Bytes) (i : Nat) : UInt32 :=
  ((block.getD (4 * i) 0).toUInt32 <<< 24) ||| ((block.getD (4 * i + 1) 0).toUInt32 <<< 16) |||
    ((block.getD (4 * i + 2) 0).toUInt32 <<< 8) ||| (block.getD (4 * i + 3) 0).toUInt32

/-- The next word of the message schedule. -/
def scheduleWord (m : List UInt32) : UInt32 :=
  let i := m.length
  let x := m.getD (i - 15) 0
  let y := m.getD (i - 2) 0
  let s0 := rotr x 7 ^^^ rotr x 18 ^^^ (x >>> 3)
  let s1 := rotr y 17 ^^^ rotr y 19 ^^^ (y >>> 10)
  m.getD (i - 16) 0 + s0 + m.getD (i - 7) 0 + s1

/-- Append the given number of words to the schedule. -/
def extendSchedule : Nat → List UInt32 → List UInt32
  | 0, m => m
  | n + 1, m => extendSchedule n (m ++ [scheduleWord m])

/-- One round, with its constant and its word of the schedule. -/
def hashRound (v : HashWords) (k m : UInt32) : HashWords :=
  let s1 := rotr v.e 6 ^^^ rotr v.e 11 ^^^ rotr v.e 25
  let ch := (v.e &&& v.f) ^^^ (~~~v.e &&& v.g)
  let temp1 := v.h + s1 + ch + k + m
  let s0 := rotr v.a 2 ^^^ rotr v.a 13 ^^^ rotr v.a 22
  let maj := (v.a &&& v.b) ^^^ (v.a &&& v.c) ^^^ (v.b &&& v.c)
  let temp2 := s0 + maj
  { a := temp1 + temp2, b := v.a, c := v.b, d := v.c
    e := v.d + temp1, f := v.e, g := v.f, h := v.g }

/-- `Sha256Hasher::transform`. -/
def transform (state : HashWords) (block : Bytes) : HashWords :=
  let m := extendSchedule 48 ((List.range 16).map (blockWord block))
  let v := (roundConstants.zip m).foldl (fun v km => hashRound v km.1 km.2) state
  { a := state.a + v.a, b := state.b + v.b, c := state.c + v.c, d := state.d + v.d
    e := state.e + v.e, f := state.f + v.f, g := state.g + v.g, h := state.h + v.h }

/-- The `while (len >= 64)` loop: the state after all whole blocks, and what is left. Every
round takes 64 bytes, so a bound of the length is never what ends it. -/
def absorbBlocks : Nat → HashWords → Bytes → HashWords × Bytes
  | 0, state, p => (state, p)
  | bound + 1, state, p =>
      if 64 ≤ p.length then absorbBlocks bound (transform state (p.take 64)) (p.drop 64)
      else (state, p)

/-- Less than a block remains. -/
theorem absorb_blocks_short {bound : Nat} {state : HashWords} {p : Bytes}
    (hbound : p.length ≤ bound) : (absorbBlocks bound state p).2.length < 64 := by
  induction bound generalizing state p with
  | zero =>
      show p.length < 64
      omega
  | succ bound ih =>
      unfold absorbBlocks
      split
      · exact ih (by rw [List.length_drop]; omega)
      · show p.length < 64
        omega

/-- The members of `Sha256Hasher`; `buffer` holds the first `buffered_` bytes of `buffer_`. -/
structure Sha256Hasher where
  state : HashWords := .initial
  buffer : Bytes := []
  totalLen : UInt64 := 0
  buffered_lt : buffer.length < 64 := by decide

namespace Sha256Hasher

/-- The part of `update` after the unfinished block has been dealt with. -/
def absorb (state : HashWords) (buffer : Bytes) (hbuffer : buffer.length < 64)
    (totalLen : UInt64) (p : Bytes) : Sha256Hasher :=
  let r := absorbBlocks p.length state p
  if r.2 = [] then
    { state := r.1, buffer := buffer, totalLen := totalLen, buffered_lt := hbuffer }
  else
    { state := r.1, buffer := r.2, totalLen := totalLen
      buffered_lt := absorb_blocks_short (Nat.le_refl _) }

/-- `Sha256Hasher::update`. -/
def update (h : Sha256Hasher) (data : Bytes) : Sha256Hasher :=
  let totalLen := h.totalLen + byteSize data
  if 0 < h.buffer.length then
    let take := min (64 - h.buffer.length) data.length
    let filled := h.buffer ++ data.take take
    if hfull : filled.length = 64 then
      absorb (transform h.state filled) [] (by decide) totalLen (data.drop take)
    else
      absorb h.state filled
        (by
          have hlt := h.buffered_lt
          simp only [filled, take, List.length_append, List.length_take] at hfull ⊢
          omega)
        totalLen (data.drop take)
  else absorb h.state h.buffer h.buffered_lt totalLen data

/-- The padding loop of `final`, which ends within 64 rounds. -/
def padZeros : Nat → Sha256Hasher → Sha256Hasher
  | 0, h => h
  | bound + 1, h => if h.buffer.length ≠ 56 then padZeros bound (h.update [0]) else h

/-- The bytes of a word, most significant first. -/
def wordBytes (x : UInt32) : Bytes :=
  [(x >>> 24).toUInt8, (x >>> 16).toUInt8, (x >>> 8).toUInt8, x.toUInt8]

/-- The bit length, most significant byte first. -/
def lengthBytes (totalLen : UInt64) : Bytes :=
  let bitLen := totalLen * 8
  [(bitLen >>> 56).toUInt8, (bitLen >>> 48).toUInt8, (bitLen >>> 40).toUInt8,
    (bitLen >>> 32).toUInt8, (bitLen >>> 24).toUInt8, (bitLen >>> 16).toUInt8,
    (bitLen >>> 8).toUInt8, bitLen.toUInt8]

/-- `Sha256Hasher::final`. -/
def final (h : Sha256Hasher) : Digest :=
  let padded := (padZeros 64 (h.update [0x80])).update (lengthBytes h.totalLen)
  let s := padded.state
  { bytes := wordBytes s.a ++ wordBytes s.b ++ wordBytes s.c ++ wordBytes s.d ++
      wordBytes s.e ++ wordBytes s.f ++ wordBytes s.g ++ wordBytes s.h
    length_eq := rfl }

end Sha256Hasher

/-! ## Feeding piecewise -/

/-- Take in all whole blocks. -/
def consume (state : HashWords) (p : Bytes) : HashWords × Bytes := absorbBlocks p.length state p

/-- The loop is the recursion on blocks. -/
theorem absorb_blocks_eq_consume {bound : Nat} {state : HashWords} {p : Bytes}
    (hbound : p.length ≤ bound) : absorbBlocks bound state p = consume state p := by
  have hstable : ∀ (n m : Nat) (state : HashWords) (p : Bytes), p.length ≤ n → p.length ≤ m →
      absorbBlocks n state p = absorbBlocks m state p := by
    intro n
    induction n with
    | zero =>
        intro m state p hn _
        have hnil : p = [] := List.eq_nil_of_length_eq_zero (by omega)
        subst hnil
        cases m with
        | zero => rfl
        | succ m => rfl
    | succ n ih =>
        intro m state p hn hm
        cases m with
        | zero =>
            have hnil : p = [] := List.eq_nil_of_length_eq_zero (by omega)
            subst hnil
            rfl
        | succ m =>
            unfold absorbBlocks
            split
            · exact ih m _ _ (by rw [List.length_drop]; omega) (by rw [List.length_drop]; omega)
            · rfl
  exact hstable bound p.length state p hbound (Nat.le_refl _)

/-- Less than a block is left alone. -/
theorem consume_short {state : HashWords} {p : Bytes} (h : p.length < 64) :
    consume state p = (state, p) := by
  unfold consume
  cases hlen : p.length with
  | zero => rfl
  | succ n =>
      unfold absorbBlocks
      rw [if_neg (by omega)]

/-- The first block is compressed. -/
theorem consume_block {state : HashWords} {block rest : Bytes} (h : block.length = 64) :
    consume state (block ++ rest) = consume (transform state block) rest := by
  have hlen : (block ++ rest).length = (63 + rest.length) + 1 := by
    rw [List.length_append, h]
    omega
  rw [consume, hlen]
  unfold absorbBlocks
  rw [if_pos (by omega), List.take_left' h, List.drop_left' h]
  exact absorb_blocks_eq_consume (by omega)

/-- What is left after taking in a first part is taken in with the second. -/
theorem consume_append (state : HashWords) (p q : Bytes) :
    consume state (p ++ q) = consume (consume state p).1 ((consume state p).2 ++ q) := by
  induction hlen : p.length using Nat.strongRecOn generalizing state p with
  | ind n ih =>
      by_cases hshort : p.length < 64
      · rw [(consume_short hshort : consume state p = _)]
      · have hblock : (p.take 64).length = 64 := by rw [List.length_take]; omega
        have hrest := ih (p.drop 64).length (by rw [List.length_drop]; omega)
          (transform state (p.take 64)) (p.drop 64) rfl
        have hsplit : p = p.take 64 ++ p.drop 64 := (List.take_append_drop 64 p).symm
        have hfirst : consume state p = consume (transform state (p.take 64)) (p.drop 64) := by
          conv_lhs => rw [hsplit]
          exact consume_block hblock
        rw [hfirst, ← hrest]
        conv_lhs => rw [hsplit, List.append_assoc]
        exact consume_block hblock

namespace Sha256Hasher

theorem ext_fields {h h' : Sha256Hasher} (hstate : h.state = h'.state)
    (hbuffer : h.buffer = h'.buffer) (htotal : h.totalLen = h'.totalLen) : h = h' := by
  cases h; cases h'
  cases hstate; cases hbuffer; cases htotal
  rfl

theorem absorb_nil (state : HashWords) (buffer : Bytes) (hbuffer : buffer.length < 64)
    (totalLen : UInt64) :
    absorb state buffer hbuffer totalLen [] =
      { state := state, buffer := buffer, totalLen := totalLen, buffered_lt := hbuffer } := rfl

/-- With nothing buffered the rest of `update` takes in all whole blocks. -/
theorem absorb_fresh (state : HashWords) (totalLen : UInt64) (p : Bytes) :
    (absorb state [] (by decide) totalLen p).state = (consume state p).1 ∧
      (absorb state [] (by decide) totalLen p).buffer = (consume state p).2 ∧
      (absorb state [] (by decide) totalLen p).totalLen = totalLen := by
  unfold absorb consume
  by_cases hrest : (absorbBlocks p.length state p).2 = []
  · simp [hrest]
  · simp [hrest]

/-- An update takes in the whole blocks of what was buffered followed by the new bytes. -/
theorem update_eq (h : Sha256Hasher) (data : Bytes) :
    (h.update data).state = (consume h.state (h.buffer ++ data)).1 ∧
      (h.update data).buffer = (consume h.state (h.buffer ++ data)).2 ∧
      (h.update data).totalLen = h.totalLen + byteSize data := by
  have hlt := h.buffered_lt
  unfold update
  by_cases hempty : h.buffer = []
  · simp only [hempty, List.length_nil, Nat.lt_irrefl, if_false, List.nil_append]
    exact absorb_fresh _ _ _
  · have hpos : 0 < h.buffer.length := List.length_pos_iff.mpr hempty
    simp only [hpos, if_true]
    by_cases hfits : h.buffer.length + data.length < 64
    · -- Everything stays in the buffer.
      have htake : min (64 - h.buffer.length) data.length = data.length := by omega
      have hlen : (h.buffer ++ data).length < 64 := by rw [List.length_append]; omega
      simp only [htake, List.take_length, List.drop_length]
      rw [dif_neg (by omega), absorb_nil, consume_short hlen]
      exact ⟨rfl, rfl, rfl⟩
    · -- The buffered block is completed and taken in first.
      have htake : min (64 - h.buffer.length) data.length = 64 - h.buffer.length := by omega
      have hfull : (h.buffer ++ data.take (64 - h.buffer.length)).length = 64 := by
        rw [List.length_append, List.length_take]
        omega
      have hsplit : h.buffer ++ data = (h.buffer ++ data.take (64 - h.buffer.length)) ++
          data.drop (64 - h.buffer.length) := by
        rw [List.append_assoc, List.take_append_drop]
      simp only [htake]
      rw [dif_pos hfull, hsplit, consume_block hfull]
      exact absorb_fresh _ _ _

/-- Feeding two pieces is feeding their concatenation. -/
theorem update_update (h : Sha256Hasher) (p q : Bytes) :
    (h.update p).update q = h.update (p ++ q) := by
  obtain ⟨hstate, hbuffer, htotal⟩ := h.update_eq p
  obtain ⟨hstate', hbuffer', htotal'⟩ := (h.update p).update_eq q
  obtain ⟨hstate'', hbuffer'', htotal''⟩ := h.update_eq (p ++ q)
  have hconsume : consume (h.update p).state ((h.update p).buffer ++ q) =
      consume h.state (h.buffer ++ (p ++ q)) := by
    rw [hstate, hbuffer, ← List.append_assoc h.buffer p q]
    exact (consume_append _ _ _).symm
  apply ext_fields
  · rw [hstate', hstate'', hconsume]
  · rw [hbuffer', hbuffer'', hconsume]
  · rw [htotal', htotal'', htotal, byte_size_append, UInt64.add_assoc]

/-- Nothing is hashed for an empty input. -/
theorem update_nil (h : Sha256Hasher) : h.update [] = h := by
  obtain ⟨hstate, hbuffer, htotal⟩ := h.update_eq []
  rw [List.append_nil, consume_short h.buffered_lt] at hstate hbuffer
  exact ext_fields hstate hbuffer (by rw [htotal, byte_size_nil, UInt64.add_zero])

/-- Feeding pieces one after the other is feeding their concatenation. -/
theorem foldl_update (h : Sha256Hasher) (parts : List Bytes) :
    parts.foldl update h = h.update parts.flatten := by
  induction parts generalizing h with
  | nil => exact (update_nil h).symm
  | cons p rest ih =>
      rw [List.foldl_cons, ih, update_update]
      rfl

end Sha256Hasher

/-- The hash the store uses. -/
def sha256Hash : StreamHash where
  State := Sha256Hasher
  init := {}
  update := Sha256Hasher.update
  final := Sha256Hasher.final
  final_foldl parts := by rw [Sha256Hasher.foldl_update]

/-- The digest of the empty string. -/
example : (sha256Hash.sha256 []).bytes.take 4 = [0xe3, 0xb0, 0xc4, 0x42] := by decide +kernel

end CheckpointStore
