import CheckpointStore.Model.Digest
import Mathlib.Logic.Function.Iterate

/-!
# What the checksum detects

The CRC-32 register is a linear shift register, and its step is injective
(`crc32_bit_injective`): the generator's highest bit records what was shifted out. Up to four
bytes enter the register side by side (`fold_crc32_byte_eq`), so two strings that differ only
inside four consecutive bytes never have the same checksum (`crc32_burst_injective`,
`crc32_detects_bursts`).
-/

namespace CheckpointStore

/-! ## One bit -/

/-- Even states are shifted; odd ones are shifted and combined with the generator. -/
theorem crc32_bit_cases (crc : UInt32) :
    (crc.toNat % 2 = 0 ∧ crc32Bit crc = crc >>> 1) ∨
      (crc.toNat % 2 = 1 ∧ crc32Bit crc = (crc >>> 1) ^^^ 0xEDB88320) := by
  have hand : (crc &&& 1).toNat = crc.toNat % 2 := by
    rw [UInt32.toNat_and]
    exact Nat.and_two_pow_sub_one_eq_mod crc.toNat 1
  rcases Nat.mod_two_eq_zero_or_one crc.toNat with h | h
  · have hbit : crc &&& 1 = 0 := UInt32.toNat_inj.mp (hand.trans h)
    exact .inl ⟨h, by simp [crc32Bit, hbit]⟩
  · have hbit : crc &&& 1 = 1 := UInt32.toNat_inj.mp (hand.trans h)
    refine .inr ⟨h, ?_⟩
    unfold crc32Bit
    rw [hbit]
    congr 1

theorem to_nat_shift_one (crc : UInt32) : (crc >>> 1).toNat = crc.toNat / 2 := by
  simp [UInt32.toNat_shiftRight, Nat.shiftRight_eq_div_pow]

/-- The bit that was shifted out is the highest bit of the next state. -/
theorem crc32_bit_top (crc : UInt32) :
    (crc32Bit crc).toNat.testBit 31 = crc.toNat.testBit 0 := by
  have hlow : (crc >>> 1).toNat.testBit 31 = false := by
    rw [to_nat_shift_one]
    exact Nat.testBit_lt_two_pow (by have := crc.toNat_lt; omega)
  rcases crc32_bit_cases crc with ⟨h, hcrc⟩ | ⟨h, hcrc⟩
  · rw [hcrc, hlow, Nat.testBit_zero, h]
    rfl
  · rw [hcrc, UInt32.toNat_xor, Nat.testBit_xor, hlow, Nat.testBit_zero, h]
    decide

/-- One bit of the checksum loses nothing. -/
theorem crc32_bit_injective {a b : UInt32} (h : crc32Bit a = crc32Bit b) : a = b := by
  have hparity : a.toNat % 2 = b.toNat % 2 := by
    have htop := (crc32_bit_top a).symm.trans (h ▸ crc32_bit_top b)
    simp only [Nat.testBit_zero, decide_eq_decide] at htop
    omega
  have hshift : a >>> 1 = b >>> 1 := by
    rcases crc32_bit_cases a with ⟨ha, hstepa⟩ | ⟨ha, hstepa⟩ <;>
      rcases crc32_bit_cases b with ⟨hb, hstepb⟩ | ⟨hb, hstepb⟩
    · rw [← hstepa, ← hstepb, h]
    · omega
    · omega
    · exact (UInt32.xor_left_inj _).mp (hstepa.symm.trans (h.trans hstepb))
  have hhalf := congrArg UInt32.toNat hshift
  rw [to_nat_shift_one, to_nat_shift_one] at hhalf
  exact UInt32.toNat_inj.mp (by omega)

/-- What is added above the lowest bit moves down unchanged. -/
theorem crc32_bit_xor_even (crc : UInt32) {v : UInt32} (hv : v.toNat % 2 = 0) :
    crc32Bit (crc ^^^ v) = crc32Bit crc ^^^ (v >>> 1) := by
  have hparity : (crc ^^^ v).toNat % 2 = crc.toNat % 2 := by
    have hmod := Nat.xor_mod_two_pow (a := crc.toNat) (b := v.toNat) (n := 1)
    rw [UInt32.toNat_xor]
    simpa [hv] using hmod
  rcases crc32_bit_cases (crc ^^^ v) with ⟨h, hstep⟩ | ⟨h, hstep⟩ <;>
    rcases crc32_bit_cases crc with ⟨h', hstep'⟩ | ⟨h', hstep'⟩
  · rw [hstep, hstep', UInt32.shiftRight_xor]
  · omega
  · omega
  · rw [hstep, hstep', UInt32.shiftRight_xor, UInt32.xor_assoc, UInt32.xor_assoc,
      UInt32.xor_comm _ (v >>> 1)]

/-! ## One byte -/

/-- The register eight bits further. -/
def crc32Shift (crc : UInt32) : UInt32 := crc32Bit^[8] crc

/-- One byte of the checksum loses nothing. -/
theorem crc32_shift_injective : Function.Injective crc32Shift :=
  Function.Injective.iterate (fun _ _ h => crc32_bit_injective h) 8

/-- What is added above the lowest `n` bits has moved down unchanged after `n` steps. -/
theorem iterate_crc32_bit_xor (n : Nat) (crc : UInt32) {v w : UInt32}
    (hv : v.toNat = w.toNat * 2 ^ n) : crc32Bit^[n] (crc ^^^ v) = crc32Bit^[n] crc ^^^ w := by
  induction n generalizing crc v with
  | zero =>
      have hvw : v = w := UInt32.toNat_inj.mp (by simpa using hv)
      rw [hvw]
      rfl
  | succ n ih =>
      rw [Nat.pow_succ, ← Nat.mul_assoc] at hv
      rw [Function.iterate_succ_apply, Function.iterate_succ_apply,
        crc32_bit_xor_even crc (by omega)]
      exact ih (crc32Bit crc) (by rw [to_nat_shift_one]; omega)

/-! ## Up to four bytes -/

/-- A string as a little-endian number, of which the register has room for four bytes. -/
def packBytes (bs : Bytes) : UInt32 :=
  bs.foldr (fun b w => b.toUInt32 ^^^ (w <<< 8)) 0

theorem to_nat_shift_byte {w : UInt32} (hw : w.toNat < 2 ^ 24) :
    (w <<< 8).toNat = w.toNat * 2 ^ 8 := by
  rw [UInt32.toNat_shiftLeft, Nat.shiftLeft_eq]
  exact Nat.mod_eq_of_lt (by simpa using (by omega : w.toNat * 2 ^ 8 < 2 ^ 32))

/-- The first byte is the lowest one; the others are above it. -/
theorem pack_bytes_cons (b : UInt8) {bs : Bytes} (hbs : (packBytes bs).toNat < 2 ^ 24) :
    (packBytes (b :: bs)).toNat % 2 ^ 8 = b.toNat ∧
      (packBytes (b :: bs)).toNat / 2 ^ 8 = (packBytes bs).toNat := by
  have hb : b.toNat < 2 ^ 8 := b.toNat_lt
  have heq : (packBytes (b :: bs)).toNat = b.toNat ^^^ ((packBytes bs).toNat * 2 ^ 8) := by
    show (b.toUInt32 ^^^ (packBytes bs <<< 8)).toNat = _
    rw [UInt32.toNat_xor, to_nat_shift_byte hbs, UInt8.toNat_toUInt32]
  rw [heq, Nat.xor_mod_two_pow, Nat.xor_div_two_pow, Nat.mul_mod_left, Nat.xor_zero,
    Nat.mod_eq_of_lt hb, Nat.div_eq_of_lt hb, Nat.zero_xor, Nat.mul_div_cancel _ (by decide)]
  exact ⟨rfl, rfl⟩

/-- Four bytes fit into a word. -/
theorem pack_bytes_lt {bs : Bytes} (hlength : bs.length ≤ 4) :
    (packBytes bs).toNat < 2 ^ (8 * bs.length) := by
  induction bs with
  | nil => decide
  | cons b bs ih =>
      have hrest := ih (by simp at hlength; omega)
      have hroom : (packBytes bs).toNat < 2 ^ 24 :=
        Nat.lt_of_lt_of_le hrest (Nat.pow_le_pow_right (by decide) (by simp at hlength; omega))
      have hdiv := (pack_bytes_cons b hroom).2
      rw [List.length_cons, Nat.mul_succ, Nat.pow_add]
      exact (Nat.div_lt_iff_lt_mul (by decide)).mp (hdiv ▸ hrest)

/-- Three bytes leave room for a fourth. -/
theorem pack_bytes_room {bs : Bytes} (hlength : bs.length ≤ 3) :
    (packBytes bs).toNat < 2 ^ 24 :=
  Nat.lt_of_lt_of_le (pack_bytes_lt (by omega)) (Nat.pow_le_pow_right (by decide) (by omega))

/-- A word determines the bytes packed into it. -/
theorem pack_bytes_injective {xs ys : Bytes} (hlength : xs.length = ys.length)
    (hshort : xs.length ≤ 4) (h : packBytes xs = packBytes ys) : xs = ys := by
  induction xs generalizing ys with
  | nil => exact (List.length_eq_zero_iff.mp hlength.symm).symm
  | cons x xs ih =>
      cases ys with
      | nil => cases hlength
      | cons y ys =>
          have hlength' : xs.length = ys.length := Nat.succ.inj hlength
          have hshort' : xs.length ≤ 3 := Nat.le_of_succ_le_succ hshort
          obtain ⟨hx, hxs⟩ := pack_bytes_cons x (pack_bytes_room hshort')
          obtain ⟨hy, hys⟩ := pack_bytes_cons y (pack_bytes_room (hlength' ▸ hshort'))
          rw [h] at hx hxs
          rw [ih hlength' (by omega) (UInt32.toNat_inj.mp (hxs.symm.trans hys)),
            UInt8.toNat_inj.mp (hx.symm.trans hy)]

/-- Up to four bytes can be added to the register all at once. -/
theorem fold_crc32_byte_eq (crc : UInt32) {bs : Bytes} (hlength : bs.length ≤ 4) :
    bs.foldl crc32Byte crc = crc32Shift^[bs.length] (crc ^^^ packBytes bs) := by
  induction bs generalizing crc with
  | nil => simp [packBytes]
  | cons b bs ih =>
      have hshort : bs.length ≤ 3 := Nat.le_of_succ_le_succ hlength
      have hmoved : crc32Shift (crc ^^^ b.toUInt32 ^^^ (packBytes bs <<< 8)) =
          crc32Byte crc b ^^^ packBytes bs :=
        iterate_crc32_bit_xor 8 _ (to_nat_shift_byte (pack_bytes_room hshort))
      rw [List.foldl_cons, ih _ (by omega), List.length_cons, Function.iterate_succ_apply,
        ← hmoved, UInt32.xor_assoc]
      rfl

/-! ## Bursts -/

/-- Different registers stay different. -/
theorem fold_crc32_byte_injective (bs : Bytes) {a b : UInt32}
    (h : bs.foldl crc32Byte a = bs.foldl crc32Byte b) : a = b := by
  induction bs generalizing a b with
  | nil => exact h
  | cons c bs ih => exact (UInt32.xor_left_inj _).mp (crc32_shift_injective (ih h))

/-- Inside a string, up to four consecutive bytes are determined by the checksum. -/
theorem crc32_burst_injective {front back xs ys : Bytes} {seed : UInt32}
    (hlength : xs.length = ys.length) (hshort : xs.length ≤ 4)
    (h : crc32 (front ++ xs ++ back) seed = crc32 (front ++ ys ++ back) seed) : xs = ys := by
  simp only [crc32, List.foldl_append] at h
  have hburst := fold_crc32_byte_injective back ((UInt32.xor_left_inj _).mp h)
  have hshort' : ys.length ≤ 4 := hlength ▸ hshort
  rw [fold_crc32_byte_eq _ hshort, fold_crc32_byte_eq _ hshort', ← hlength] at hburst
  have hpack := crc32_shift_injective.iterate xs.length hburst
  exact pack_bytes_injective hlength hshort ((UInt32.xor_right_inj _).mp hpack)

/-- Two strings of one length that differ, and only inside four consecutive bytes, have different
checksums, whatever surrounds these bytes and whatever the seed is. -/
theorem crc32_detects_bursts (front xs ys back : Bytes) (seed : UInt32)
    (hlength : xs.length = ys.length) (hshort : xs.length ≤ 4) (hdiffer : xs ≠ ys) :
    crc32 (front ++ xs ++ back) seed ≠ crc32 (front ++ ys ++ back) seed :=
  fun h => hdiffer (crc32_burst_injective hlength hshort h)

/-- A flipped word in the middle changes the checksum. -/
theorem crc32_detects_flipped_word :
    crc32 ([1, 2] ++ [3, 4, 5, 6] ++ [7]) 9 ≠ crc32 ([1, 2] ++ [252, 251, 250, 249] ++ [7]) 9 :=
  crc32_detects_bursts [1, 2] [3, 4, 5, 6] [252, 251, 250, 249] [7] 9 rfl (by decide) (by decide)

end CheckpointStore
