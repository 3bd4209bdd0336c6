import CheckpointStore.Foundation.Sha2
import CheckpointStore.Model.Sha256

/-!
# The hasher computes SHA-256

The hasher of `hash.cpp` against the definition of SHA-256 over bit strings in `Foundation.Sha2`. A
byte string stands for the bits of its bytes, most significant first (`bitsOf`), and a `uint32_t`
for its bit vector. The tables of the source are the constants of the standard
(`round_constants_eq`, `words_initial`), `transform` is the compression of a block
(`words_transform`), and what `final` feeds to the hasher completes the message to its padding
(`bits_of_padded`). `streaming_sha256` is the result for every way of feeding a message.
-/

namespace CheckpointStore

open Foundation

/-! ## Bytes as bits -/

/-- The bits of a byte string. -/
def bitsOf (data : Bytes) : List Bool := data.flatMap fun b => Sha2.bitsOfNat 8 b.toNat

/-- Bytes in a row are bits in a row. -/
theorem bits_of_append (p q : Bytes) : bitsOf (p ++ q) = bitsOf p ++ bitsOf q :=
  List.flatMap_append

@[simp] theorem length_bits_of (data : Bytes) : (bitsOf data).length = 8 * data.length := by
  induction data with
  | nil => rfl
  | cons b rest ih =>
      rw [bitsOf, List.flatMap_cons, List.length_append, Sha2.length_bits_of_nat, List.length_cons,
        Nat.mul_succ, Nat.add_comm]
      exact congrArg (· + 8) ih

/-- Dropping bytes drops eight bits each. -/
theorem drop_bits_of (data : Bytes) (n : Nat) :
    (bitsOf data).drop (8 * n) = bitsOf (data.drop n) := by
  by_cases hn : n ≤ data.length
  · have hfirst : (bitsOf (data.take n)).length = 8 * n := by
      rw [length_bits_of, List.length_take, Nat.min_eq_left hn]
    conv_lhs => rw [← List.take_append_drop n data, bits_of_append]
    exact List.drop_left' hfirst
  · rw [List.drop_of_length_le (by rw [length_bits_of]; omega),
      List.drop_of_length_le (by omega)]
    rfl

/-- Taking bytes takes eight bits each. -/
theorem take_bits_of (data : Bytes) (n : Nat) :
    (bitsOf data).take (8 * n) = bitsOf (data.take n) := by
  by_cases hn : n ≤ data.length
  · have hfirst : (bitsOf (data.take n)).length = 8 * n := by
      rw [length_bits_of, List.length_take, Nat.min_eq_left hn]
    conv_lhs => rw [← List.take_append_drop n data, bits_of_append]
    exact List.take_left' hfirst
  · rw [List.take_of_length_le (by rw [length_bits_of]; omega),
      List.take_of_length_le (by omega)]

/-! ## Words -/

/-- The words of a chaining state as bit vectors. -/
def HashWords.words (v : HashWords) : Sha2.Hash where
  a := v.a.toBitVec
  b := v.b.toBitVec
  c := v.c.toBitVec
  d := v.d.toBitVec
  e := v.e.toBitVec
  f := v.f.toBitVec
  g := v.g.toBitVec
  h := v.h.toBitVec

/-- The two shifts are a rotation. -/
theorem rotr_to_bit_vec (x : UInt32) {n : UInt32} (hpos : 0 < n.toNat) (hn : n.toNat < 32) :
    (rotr x n).toBitVec = x.toBitVec.rotateRight n.toNat := by
  have hrest : (32 - n).toNat = 32 - n.toNat :=
    UInt32.toNat_sub_of_le _ _ (UInt32.le_iff_toNat_le.mpr (Nat.le_of_lt hn))
  have hright : (n.toBitVec % 32).toNat = n.toNat := Nat.mod_eq_of_lt hn
  have hleft : ((32 - n).toBitVec % 32).toNat = 32 - n.toNat := by
    rw [← hrest]
    exact Nat.mod_eq_of_lt (show (32 - n).toNat < 32 by omega)
  rw [rotr, UInt32.toBitVec_or, UInt32.toBitVec_shiftRight, UInt32.toBitVec_shiftLeft,
    BitVec.rotateRight_def, Nat.mod_eq_of_lt hn, BitVec.ushiftRight_eq', BitVec.shiftLeft_eq',
    hright, hleft]

/-- A round of the code is a round of the standard. -/
theorem words_hash_round (v : HashWords) (k m : UInt32) :
    (hashRound v k m).words = Sha2.round v.words k.toBitVec m.toBitVec := by
  simp (disch := decide) only [hashRound, HashWords.words, UInt32.toBitVec_add,
    UInt32.toBitVec_xor, UInt32.toBitVec_and, UInt32.toBitVec_not, rotr_to_bit_vec]
  rfl

theorem small_sigma0_to_bit_vec (x : UInt32) :
    (rotr x 7 ^^^ rotr x 18 ^^^ (x >>> 3)).toBitVec = Sha2.smallSigma0 x.toBitVec := by
  simp (disch := decide) only [UInt32.toBitVec_xor, rotr_to_bit_vec]
  rfl

theorem small_sigma1_to_bit_vec (x : UInt32) :
    (rotr x 17 ^^^ rotr x 19 ^^^ (x >>> 10)).toBitVec = Sha2.smallSigma1 x.toBitVec := by
  simp (disch := decide) only [UInt32.toBitVec_xor, rotr_to_bit_vec]
  rfl

/-- The words of the schedule of a block. -/
def scheduled (block : Bytes) (t : Nat) : UInt32 := ⟨Sha2.schedule (bitsOf block) t⟩

/-- The loop that fills the schedule computes it. -/
theorem schedule_word_eq (block : Bytes) {n : Nat} (hn : 16 ≤ n) :
    scheduleWord ((List.range n).map (scheduled block)) = scheduled block n := by
  have hget : ∀ i < n, ((List.range n).map (scheduled block)).getD i 0 = scheduled block i := by
    intro i hi
    simp [List.getD, hi]
  have hlength : ((List.range n).map (scheduled block)).length = n := by simp
  unfold scheduleWord
  dsimp only
  rw [hlength, hget (n - 15) (by omega), hget (n - 2) (by omega), hget (n - 16) (by omega),
    hget (n - 7) (by omega)]
  apply UInt32.toBitVec_inj.mp
  show _ = Sha2.schedule (bitsOf block) n
  rw [Sha2.schedule, if_neg (by omega)]
  rw [UInt32.toBitVec_add, UInt32.toBitVec_add, UInt32.toBitVec_add, small_sigma0_to_bit_vec,
    small_sigma1_to_bit_vec]
  -- The standard adds the four words in the other order.
  show Sha2.schedule (bitsOf block) (n - 16) +
    Sha2.smallSigma0 (Sha2.schedule (bitsOf block) (n - 15)) +
    Sha2.schedule (bitsOf block) (n - 7) +
    Sha2.smallSigma1 (Sha2.schedule (bitsOf block) (n - 2)) = _
  ac_rfl

/-- The loop extends the schedule of the standard. -/
theorem extend_schedule_eq (block : Bytes) {n : Nat} (hn : 16 ≤ n) (more : Nat) :
    extendSchedule more ((List.range n).map (scheduled block)) =
      (List.range (n + more)).map (scheduled block) := by
  induction more generalizing n with
  | zero => rfl
  | succ more ih =>
      have hstep : (List.range n).map (scheduled block) ++ [scheduled block n] =
          (List.range (n + 1)).map (scheduled block) := by
        rw [List.range_succ, List.map_append, List.map_singleton]
      rw [extendSchedule, schedule_word_eq block hn, hstep, ih (by omega), Nat.add_right_comm,
        Nat.add_assoc]

/-- A byte shifted in is a digit in base 256. -/
theorem shift_left_or (n : Nat) (b : UInt8) : n <<< 8 ||| b.toNat = n * 2 ^ 8 + b.toNat := by
  rw [← Nat.shiftLeft_add_eq_or_of_lt b.toNat_lt, Nat.shiftLeft_eq]

/-- Four bytes, most significant first, as a number. -/
theorem word_to_nat (a b c d : UInt8) :
    ((a.toUInt32 <<< 24) ||| (b.toUInt32 <<< 16) ||| (c.toUInt32 <<< 8) ||| d.toUInt32).toNat =
      ((a.toNat * 2 ^ 8 + b.toNat) * 2 ^ 8 + c.toNat) * 2 ^ 8 + d.toNat := by
  have hshift : ∀ (x : UInt8) (n : Nat), n ≤ 24 → x.toNat <<< n % 2 ^ 32 = x.toNat <<< n := by
    intro x n hn
    refine Nat.mod_eq_of_lt ?_
    rw [Nat.shiftLeft_eq]
    calc x.toNat * 2 ^ n < 2 ^ 8 * 2 ^ n := Nat.mul_lt_mul_of_pos_right x.toNat_lt (by positivity)
      _ ≤ 2 ^ 8 * 2 ^ 24 := Nat.mul_le_mul_left _ (Nat.pow_le_pow_right (by decide) hn)
      _ = 2 ^ 32 := by decide
  simp only [UInt32.toNat_or, UInt32.toNat_shiftLeft, UInt8.toNat_toUInt32]
  show a.toNat <<< 24 % 2 ^ 32 ||| b.toNat <<< 16 % 2 ^ 32 ||| c.toNat <<< 8 % 2 ^ 32 |||
    d.toNat = _
  rw [hshift a 24 (by decide), hshift b 16 (by decide), hshift c 8 (by decide), ← shift_left_or,
    ← shift_left_or, ← shift_left_or, Nat.shiftLeft_or_distrib, Nat.shiftLeft_or_distrib,
    Nat.shiftLeft_or_distrib]
  simp only [← Nat.shiftLeft_add]

theorem take_four_eq {block : Bytes} {n : Nat} (hn : n + 3 < block.length) :
    (block.drop n).take 4 =
      [block.getD n 0, block.getD (n + 1) 0, block.getD (n + 2) 0, block.getD (n + 3) 0] := by
  rw [List.drop_eq_getElem_cons (by omega), List.drop_eq_getElem_cons (by omega),
    List.drop_eq_getElem_cons (by omega), List.drop_eq_getElem_cons (by omega),
    List.getD_eq_getElem _ _ (by omega), List.getD_eq_getElem _ _ (by omega),
    List.getD_eq_getElem _ _ (by omega), List.getD_eq_getElem _ _ (by omega)]
  rfl

/-- Four bytes are the digits of the word they make up. -/
theorem nat_of_bits_word (a b c d : UInt8) : Sha2.natOfBits (bitsOf [a, b, c, d]) =
    ((a.toNat * 2 ^ 8 + b.toNat) * 2 ^ 8 + c.toNat) * 2 ^ 8 + d.toNat := by
  have hbyte : ∀ x : UInt8, x.toNat % 2 ^ 8 = x.toNat := fun x => Nat.mod_eq_of_lt x.toNat_lt
  simp only [bitsOf, List.flatMap_cons, List.flatMap_nil, List.append_nil, Sha2.nat_of_bits_append,
    Sha2.nat_of_bits_of_nat, List.length_append, Sha2.length_bits_of_nat, hbyte]
  ring

/-- The first sixteen words are read off the block. -/
theorem block_word_eq {block : Bytes} (hblock : block.length = 64) {i : Nat} (hi : i < 16) :
    blockWord block i = scheduled block i := by
  have hbits : ((bitsOf block).drop (32 * i)).take 32 = bitsOf ((block.drop (4 * i)).take 4) := by
    rw [show 32 * i = 8 * (4 * i) by omega, drop_bits_of]
    exact take_bits_of (block.drop (4 * i)) 4
  apply UInt32.toBitVec_inj.mp
  show _ = Sha2.schedule (bitsOf block) i
  rw [Sha2.schedule, if_pos hi, Sha2.wordAt, hbits, take_four_eq (by omega), nat_of_bits_word,
    ← word_to_nat]
  exact (congrArg UInt32.toBitVec UInt32.ofNat_toNat).symm.trans (UInt32.toBitVec_ofNat' _)

/-! ## The constants -/

/-- What stands above the lower 32 bits is lost. -/
theorem of_nat_high_add (c : Nat) (x : UInt32) :
    BitVec.ofNat 32 (c * 2 ^ 32 + x.toNat) = x.toBitVec := by
  apply BitVec.eq_of_toNat_eq
  rw [BitVec.toNat_ofNat, Nat.mul_add_mod_self_right]
  exact Nat.mod_eq_of_lt x.toNat_lt

/-- The table has the constants of the standard. -/
theorem round_constants_eq :
    roundConstants = (List.range 64).map fun t => ⟨Sha2.roundConstant t⟩ := by
  -- The integer part of the root is at most 6, and the entry has the next 32 bits.
  have htable : ∀ t < 64, ∃ c < 7,
      (c * 2 ^ 32 + (roundConstants.getD t 0).toNat) ^ 3 ≤ Sha2.firstPrimes.getD t 0 * 2 ^ 96 ∧
      Sha2.firstPrimes.getD t 0 * 2 ^ 96 <
        (c * 2 ^ 32 + (roundConstants.getD t 0).toNat + 1) ^ 3 := by
    decide +kernel
  have hlist : roundConstants = (List.range 64).map (roundConstants.getD · 0) := by decide +kernel
  rw [hlist]
  refine List.map_congr_left fun t ht => ?_
  rw [List.mem_range] at ht
  obtain ⟨c, _, hle, hlt⟩ := htable t ht
  apply UInt32.toBitVec_inj.mp
  show _ = Sha2.roundConstant t
  rw [Sha2.roundConstant, Sha2.nth_prime_eq ht, Sha2.cube_root_bits_eq hle hlt]
  exact (of_nat_high_add _ _).symm

/-- A word of the initial value, by exact bounds of a square root. -/
theorem initial_word_eq {i c : Nat} {x : UInt32} (hi : i < 64)
    (hle : (c * 2 ^ 32 + x.toNat) ^ 2 ≤ Sha2.firstPrimes.getD i 0 * 2 ^ 64)
    (hlt : Sha2.firstPrimes.getD i 0 * 2 ^ 64 < (c * 2 ^ 32 + x.toNat + 1) ^ 2) :
    Sha2.initialWord i = x.toBitVec := by
  rw [Sha2.initialWord, Sha2.nth_prime_eq hi, Sha2.square_root_bits_eq hle hlt, of_nat_high_add]

/-- The hasher starts with the initial value of the standard. -/
theorem words_initial : HashWords.initial.words = .initial := by
  unfold HashWords.words Sha2.Hash.initial
  rw [@initial_word_eq 0 1 0x6a09e667 (by decide) (by decide) (by decide),
    @initial_word_eq 1 1 0xbb67ae85 (by decide) (by decide) (by decide),
    @initial_word_eq 2 2 0x3c6ef372 (by decide) (by decide) (by decide),
    @initial_word_eq 3 2 0xa54ff53a (by decide) (by decide) (by decide),
    @initial_word_eq 4 3 0x510e527f (by decide) (by decide) (by decide),
    @initial_word_eq 5 3 0x9b05688c (by decide) (by decide) (by decide),
    @initial_word_eq 6 4 0x1f83d9ab (by decide) (by decide) (by decide),
    @initial_word_eq 7 4 0x5be0cd19 (by decide) (by decide) (by decide)]
  rfl

/-! ## Blocks -/

/-- The rounds of the code are those of the standard. -/
theorem words_foldl {α : Type} (k m : α → UInt32) (l : List α) (v : HashWords) :
    (l.foldl (fun v t => hashRound v (k t) (m t)) v).words =
      l.foldl (fun v t => Sha2.round v (k t).toBitVec (m t).toBitVec) v.words := by
  induction l generalizing v with
  | nil => rfl
  | cons t rest ih => rw [List.foldl_cons, List.foldl_cons, ih, words_hash_round]

/-- A block is compressed as in the standard. -/
theorem words_transform (state : HashWords) {block : Bytes} (hblock : block.length = 64) :
    (transform state block).words = Sha2.compress state.words (bitsOf block) := by
  have hfirst : (List.range 16).map (blockWord block) = (List.range 16).map (scheduled block) :=
    List.map_congr_left fun i hi => block_word_eq hblock (List.mem_range.mp hi)
  have hrounds := words_foldl (fun t => ⟨Sha2.roundConstant t⟩) (scheduled block)
    (List.range 64) state
  unfold transform
  dsimp only
  rw [hfirst, extend_schedule_eq block (Nat.le_refl 16) 48, round_constants_eq, List.zip_map',
    List.foldl_map]
  exact congrArg state.words.add hrounds

/-- All whole blocks of a byte string are compressed, one after the other. -/
theorem words_consume (state : HashWords) (p : Bytes) :
    (consume state p).1.words = (List.range (p.length / 64)).foldl
      (fun v i => Sha2.compress v (Sha2.blockAt (bitsOf p) i)) state.words ∧
    (consume state p).2.length = p.length % 64 := by
  induction hlength : p.length using Nat.strongRecOn generalizing state p with
  | ind n ih =>
      subst hlength
      by_cases hshort : p.length < 64
      · rw [consume_short hshort, Nat.div_eq_of_lt hshort, Nat.mod_eq_of_lt hshort]
        exact ⟨rfl, rfl⟩
      · have hblock : (p.take 64).length = 64 := by rw [List.length_take]; omega
        have hconsume : consume state p = consume (transform state (p.take 64)) (p.drop 64) := by
          conv_lhs => rw [← List.take_append_drop 64 p]
          exact consume_block hblock
        have hcount : p.length / 64 = (p.drop 64).length / 64 + 1 := by
          rw [List.length_drop]
          omega
        have hfirst : Sha2.blockAt (bitsOf p) 0 = bitsOf (p.take 64) := take_bits_of p 64
        have hnext : ∀ i,
            Sha2.blockAt (bitsOf p) (i + 1) = Sha2.blockAt (bitsOf (p.drop 64)) i := by
          intro i
          rw [Sha2.blockAt, Sha2.blockAt, ← drop_bits_of, List.drop_drop]
          congr 2
          omega
        obtain ⟨hwords, hlength⟩ := ih (p.drop 64).length (by rw [List.length_drop]; omega)
          (transform state (p.take 64)) (p.drop 64) rfl
        rw [hconsume, hlength, hcount, List.range_succ_eq_map, List.foldl_cons, List.foldl_map,
          hfirst, ← words_transform state hblock]
        simp only [Nat.succ_eq_add_one, hnext]
        refine ⟨hwords, ?_⟩
        rw [List.length_drop]
        omega

namespace Sha256Hasher

/-- What is buffered is the rest of the length. -/
theorem length_buffer_update (h : Sha256Hasher) (data : Bytes) :
    (h.update data).buffer.length = (h.buffer.length + data.length) % 64 := by
  rw [(h.update_eq data).2.1, (words_consume _ _).2, List.length_append]

/-- The padding loop feeds the zeros that are missing to 56 bytes, and ends by its condition. -/
theorem pad_zeros_eq {h : Sha256Hasher} {k bound : Nat} (hk : k < 64) (hbound : k ≤ bound)
    (hend : (h.buffer.length + k) % 64 = 56) :
    padZeros bound h = h.update (List.replicate k 0) := by
  induction k generalizing h bound with
  | zero =>
      have hlt := h.buffered_lt
      have hstop : ¬ h.buffer.length ≠ 56 := by omega
      rw [List.replicate_zero, update_nil]
      cases bound with
      | zero => rfl
      | succ bound => rw [padZeros, if_neg hstop]
  | succ k ih =>
      have hgo : h.buffer.length ≠ 56 := by omega
      cases bound with
      | zero => omega
      | succ bound =>
          rw [padZeros, if_pos hgo, ih (by omega) (by omega), update_update]
          · rfl
          · rw [length_buffer_update, List.length_singleton]
            omega

/-! ## Padding and digest -/

theorem bits_of_replicate_zero (k : Nat) :
    bitsOf (List.replicate k 0) = List.replicate (8 * k) false := by
  induction k with
  | zero => rfl
  | succ k ih =>
      rw [List.replicate_succ, bitsOf, List.flatMap_cons, Nat.mul_succ, Nat.add_comm,
        List.replicate_add]
      exact congrArg _ ih

/-- A byte has the lowest eight digits of the number it is cut from. -/
theorem bits_of_byte {b : UInt8} {n : Nat} (h : b.toNat = n % 2 ^ 8) (rest : Bytes) :
    bitsOf (b :: rest) = Sha2.bitsOfNat 8 n ++ bitsOf rest := by
  rw [bitsOf, List.flatMap_cons, h, Sha2.bits_of_nat_mod]
  rfl

/-- A byte of a word as a quotient. -/
theorem word_byte_to_nat (x : UInt32) {s : UInt32} (hs : s.toNat < 32) :
    (x >>> s).toUInt8.toNat = x.toNat / 2 ^ s.toNat % 2 ^ 8 := by
  rw [UInt32.toNat_toUInt8, UInt32.toNat_shiftRight, Nat.mod_eq_of_lt hs,
    Nat.shiftRight_eq_div_pow]

/-- The bytes of a word are its bits. -/
theorem bits_of_word_bytes (x : UInt32) : bitsOf (wordBytes x) = Sha2.bitsOfNat 32 x.toNat := by
  rw [wordBytes, bits_of_byte (word_byte_to_nat x (s := 24) (by decide)),
    bits_of_byte (word_byte_to_nat x (s := 16) (by decide)),
    bits_of_byte (word_byte_to_nat x (s := 8) (by decide)),
    bits_of_byte (UInt32.toNat_toUInt8 x),
    Sha2.bits_of_nat_add 8 24, Sha2.bits_of_nat_add 8 16, Sha2.bits_of_nat_add 8 8]
  exact congrArg _ (congrArg _ (congrArg _ (List.append_nil _)))

theorem length_byte_to_nat (x : UInt64) {s : UInt64} (hs : s.toNat < 64) :
    (x >>> s).toUInt8.toNat = x.toNat / 2 ^ s.toNat % 2 ^ 8 := by
  rw [UInt64.toNat_toUInt8, UInt64.toNat_shiftRight, Nat.mod_eq_of_lt hs,
    Nat.shiftRight_eq_div_pow]

/-- The length field is the number of bits, modulo `2 ^ 64`. -/
theorem bits_of_length_bytes (totalLen : UInt64) :
    bitsOf (lengthBytes totalLen) = Sha2.bitsOfNat 64 (totalLen * 8).toNat := by
  unfold lengthBytes
  dsimp only
  rw [bits_of_byte (length_byte_to_nat _ (s := 56) (by decide)),
    bits_of_byte (length_byte_to_nat _ (s := 48) (by decide)),
    bits_of_byte (length_byte_to_nat _ (s := 40) (by decide)),
    bits_of_byte (length_byte_to_nat _ (s := 32) (by decide)),
    bits_of_byte (length_byte_to_nat _ (s := 24) (by decide)),
    bits_of_byte (length_byte_to_nat _ (s := 16) (by decide)),
    bits_of_byte (length_byte_to_nat _ (s := 8) (by decide)),
    bits_of_byte (UInt64.toNat_toUInt8 _), Sha2.bits_of_nat_add 8 56, Sha2.bits_of_nat_add 8 48,
    Sha2.bits_of_nat_add 8 40, Sha2.bits_of_nat_add 8 32, Sha2.bits_of_nat_add 8 24,
    Sha2.bits_of_nat_add 8 16, Sha2.bits_of_nat_add 8 8]
  exact congrArg _ (congrArg _ (congrArg _ (congrArg _ (congrArg _ (congrArg _ (congrArg _
    (List.append_nil _)))))))

/-- The number of zero bytes in the padding of a message of the given length. -/
def zeroBytes (length : Nat) : Nat := (119 - length % 64) % 64

theorem zero_bytes_lt (length : Nat) : zeroBytes length < 64 := Nat.mod_lt _ (by decide)

/-- The padding of a message in bytes. -/
theorem bits_of_padded {data : Bytes} (hdata : data.length < 2 ^ 61) :
    bitsOf (data ++ [0x80] ++ List.replicate (zeroBytes data.length) 0 ++
      lengthBytes (byteSize data)) = Sha2.pad (bitsOf data) := by
  have hzeros : Sha2.zeroCount (bitsOf data).length = 7 + 8 * zeroBytes data.length := by
    rw [length_bits_of]
    refine Sha2.zero_count_eq ?_ ?_ <;> unfold zeroBytes <;> omega
  have hlength : (byteSize data * 8).toNat = (bitsOf data).length := by
    rw [length_bits_of, UInt64.toNat_mul, byte_size_to_nat (by omega)]
    show data.length * 8 % 2 ^ 64 = _
    omega
  rw [Sha2.pad, hzeros, bits_of_append, bits_of_append, bits_of_append, bits_of_replicate_zero,
    bits_of_length_bytes, hlength, List.replicate_add, List.append_assoc (bitsOf data)]
  rfl

/-- The loop ends, and the padded message is what has been fed to the hasher in the end. -/
theorem padded_update (data : Bytes) :
    let h := update {} data
    (padZeros 64 (h.update [0x80])).buffer.length = 56 ∧
      (padZeros 64 (h.update [0x80])).update (lengthBytes h.totalLen) =
        update {} (data ++ [0x80] ++ List.replicate (zeroBytes data.length) 0 ++
          lengthBytes (byteSize data)) := by
  intro h
  have hbuffer : (h.update [0x80]).buffer.length = (data.length + 1) % 64 := by
    rw [update_update, length_buffer_update]
    simp
  have hend : ((h.update [0x80]).buffer.length + zeroBytes data.length) % 64 = 56 := by
    rw [hbuffer, zeroBytes]
    omega
  have htotal : h.totalLen = byteSize data := by
    rw [(update_eq {} data).2.2]
    exact UInt64.zero_add _
  have hpad : padZeros 64 (h.update [0x80]) =
      (h.update [0x80]).update (List.replicate (zeroBytes data.length) 0) :=
    pad_zeros_eq (zero_bytes_lt _) (Nat.le_of_lt (zero_bytes_lt _)) hend
  rw [hpad, htotal]
  refine ⟨?_, ?_⟩
  · rw [length_buffer_update, List.length_replicate, hend]
  · rw [update_update, update_update, update_update]
    simp only [List.append_assoc]

/-- The bits of the digest are the bits of the chaining state. -/
theorem bits_of_digest (s : HashWords) :
    bitsOf (wordBytes s.a ++ wordBytes s.b ++ wordBytes s.c ++ wordBytes s.d ++
      wordBytes s.e ++ wordBytes s.f ++ wordBytes s.g ++ wordBytes s.h) = s.words.bits := by
  simp [bits_of_append, bits_of_word_bytes, HashWords.words, Sha2.Hash.bits]

end Sha256Hasher

/-- A message of less than `2 ^ 61` bytes is fed to a fresh hasher in any pieces. Then the padding
loop of `final` ends by its condition, and the digest is SHA-256 of the message. -/
theorem streaming_sha256 (parts : List Bytes) (hlength : parts.flatten.length < 2 ^ 61) :
    let h := parts.foldl Sha256Hasher.update {}
    (Sha256Hasher.padZeros 64 (h.update [0x80])).buffer.length = 56 ∧
      bitsOf h.final.bytes = Sha2.sha256 (bitsOf parts.flatten) := by
  intro h
  obtain ⟨hloop, hpadded⟩ := Sha256Hasher.padded_update parts.flatten
  have hfed : h = Sha256Hasher.update {} parts.flatten :=
    Sha256Hasher.foldl_update {} parts
  rw [← hfed] at hloop hpadded
  refine ⟨hloop, ?_⟩
  unfold Sha256Hasher.final
  dsimp only
  rw [Sha256Hasher.bits_of_digest, hpadded, (Sha256Hasher.update_eq {} _).1]
  have hblocks := (words_consume .initial (parts.flatten ++ [0x80] ++
    List.replicate (Sha256Hasher.zeroBytes parts.flatten.length) 0 ++
    Sha256Hasher.lengthBytes (byteSize parts.flatten))).1
  rw [words_initial, Sha256Hasher.bits_of_padded hlength,
    ← Nat.mul_div_mul_left _ 64 (by decide : 0 < 8), ← length_bits_of,
    Sha256Hasher.bits_of_padded hlength] at hblocks
  exact congrArg Sha2.Hash.bits hblocks

/-- A message of three bytes, fed in three pieces of which one is empty. -/
theorem streaming_sha256_of_three_bytes :
    let h := [[97], [], [98, 99]].foldl Sha256Hasher.update {}
    (Sha256Hasher.padZeros 64 (h.update [0x80])).buffer.length = 56 ∧
      bitsOf h.final.bytes = Sha2.sha256 (bitsOf [97, 98, 99]) :=
  streaming_sha256 [[97], [], [98, 99]] (by decide)

end CheckpointStore
