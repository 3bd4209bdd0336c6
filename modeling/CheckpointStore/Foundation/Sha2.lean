import Mathlib.Analysis.SpecialFunctions.Pow.Real
import Mathlib.Data.Nat.Nth
import Mathlib.Data.Nat.Prime.Defs

/-!
# SHA-256 over bit strings

The hash function as its standard defines it. A message is a bit string, and every step is stated
on bit strings and 32-bit words: the padding, the cut into blocks and words, the message schedule as
a function of the round, the 64 rounds and the addition of the intermediate hash values. The
constants are the first 32 bits of the fractional parts of the roots of the first primes.

`nat_of_bits_append` and `bits_of_nat_add` cut numbers into groups of digits, `zero_count_eq`
solves the congruence of the padding, and `cube_root_bits_eq`, `square_root_bits_eq` and
`nth_prime_eq` compute the constants.
-/

namespace Foundation.Sha2

/-- A word of 32 bits. -/
abbrev Word := BitVec 32

/-! ## Binary digits -/

/-- The number with the given binary digits, most significant first. -/
def natOfBits (bits : List Bool) : Nat := bits.foldl (fun n bit => 2 * n + bit.toNat) 0

/-- The lowest binary digits of a number, most significant first. -/
def bitsOfNat : Nat → Nat → List Bool
  | 0, _ => []
  | width + 1, n => bitsOfNat width (n / 2) ++ [decide (n % 2 = 1)]

/-- The bits of a number are as many as asked for. -/
@[simp] theorem length_bits_of_nat (width n : Nat) : (bitsOfNat width n).length = width := by
  induction width generalizing n with
  | zero => rfl
  | succ width ih => simp [bitsOfNat, ih]

/-- The value of two bit strings in a row. -/
theorem nat_of_bits_append (xs ys : List Bool) :
    natOfBits (xs ++ ys) = natOfBits xs * 2 ^ ys.length + natOfBits ys := by
  induction ys using List.reverseRecOn generalizing xs with
  | nil => simp [natOfBits]
  | append_singleton ys bit ih =>
      have hsnoc : ∀ zs : List Bool, natOfBits (zs ++ [bit]) = 2 * natOfBits zs + bit.toNat :=
        fun zs => by simp [natOfBits]
      rw [← List.append_assoc, hsnoc, hsnoc, ih, List.length_append, List.length_singleton,
        Nat.pow_succ]
      ring

/-- The bits of a number have its value, up to the width. -/
@[simp] theorem nat_of_bits_of_nat (width n : Nat) :
    natOfBits (bitsOfNat width n) = n % 2 ^ width := by
  induction width generalizing n with
  | zero => simp [bitsOfNat, natOfBits, Nat.mod_one]
  | succ width ih =>
      have hlast : natOfBits [decide (n % 2 = 1)] = n % 2 := by
        rcases Nat.mod_two_eq_zero_or_one n with h | h <;> simp [natOfBits, h]
      rw [bitsOfNat, nat_of_bits_append, ih, hlast, List.length_singleton, Nat.pow_one,
        Nat.pow_succ', Nat.mod_mul]
      ring

/-- The digits of a number in two groups. -/
theorem bits_of_nat_add (width width' n : Nat) :
    bitsOfNat (width + width') n = bitsOfNat width (n / 2 ^ width') ++ bitsOfNat width' n := by
  induction width' generalizing n with
  | zero => simp [bitsOfNat]
  | succ width' ih =>
      rw [← Nat.add_assoc, bitsOfNat, ih, bitsOfNat, Nat.div_div_eq_div_mul, Nat.pow_succ,
        Nat.mul_comm 2, List.append_assoc]

/-- The higher digits of a number do not matter. -/
theorem bits_of_nat_mod (width n : Nat) : bitsOfNat width (n % 2 ^ width) = bitsOfNat width n := by
  induction width generalizing n with
  | zero => rfl
  | succ width ih =>
      have hhalf : n % 2 ^ (width + 1) / 2 = n / 2 % 2 ^ width := by
        rw [Nat.pow_succ, Nat.mul_comm, Nat.mod_mul_right_div_self]
      have hlast : n % 2 ^ (width + 1) % 2 = n % 2 :=
        Nat.mod_mod_of_dvd n (Dvd.intro_left (2 ^ width) rfl)
      rw [bitsOfNat, bitsOfNat, hhalf, hlast, ih]

/-! ## Functions and constants -/

/-- The choice function: `x` chooses between `y` and `z`. -/
def ch (x y z : Word) : Word := (x &&& y) ^^^ (~~~x &&& z)

/-- The majority function. -/
def maj (x y z : Word) : Word := (x &&& y) ^^^ (x &&& z) ^^^ (y &&& z)

/-- `Σ₀`. -/
def bigSigma0 (x : Word) : Word := x.rotateRight 2 ^^^ x.rotateRight 13 ^^^ x.rotateRight 22

/-- `Σ₁`. -/
def bigSigma1 (x : Word) : Word := x.rotateRight 6 ^^^ x.rotateRight 11 ^^^ x.rotateRight 25

/-- `σ₀`. -/
def smallSigma0 (x : Word) : Word := x.rotateRight 7 ^^^ x.rotateRight 18 ^^^ (x >>> 3)

/-- `σ₁`. -/
def smallSigma1 (x : Word) : Word := x.rotateRight 17 ^^^ x.rotateRight 19 ^^^ (x >>> 10)

/-- The first 32 bits of the fractional part of a number. -/
noncomputable def fractionBits (x : ℝ) : Word := BitVec.ofNat 32 ⌊Int.fract x * 2 ^ 32⌋₊

/-- The constant of a round. -/
noncomputable def roundConstant (t : Nat) : Word :=
  fractionBits ((Nat.nth Nat.Prime t : ℝ) ^ (1 / 3 : ℝ))

/-- A word of the initial hash value. -/
noncomputable def initialWord (i : Nat) : Word := fractionBits √(Nat.nth Nat.Prime i)

/-! ## The hash -/

/-- A hash value, and the working variables of a block. -/
structure Hash where
  a : Word
  b : Word
  c : Word
  d : Word
  e : Word
  f : Word
  g : Word
  h : Word

namespace Hash

/-- The initial hash value. -/
noncomputable def initial : Hash where
  a := initialWord 0
  b := initialWord 1
  c := initialWord 2
  d := initialWord 3
  e := initialWord 4
  f := initialWord 5
  g := initialWord 6
  h := initialWord 7

/-- Word by word addition of two hash values. -/
def add (v w : Hash) : Hash where
  a := v.a + w.a
  b := v.b + w.b
  c := v.c + w.c
  d := v.d + w.d
  e := v.e + w.e
  f := v.f + w.f
  g := v.g + w.g
  h := v.h + w.h

/-- The hash value as 256 bits. -/
def bits (v : Hash) : List Bool :=
  [v.a, v.b, v.c, v.d, v.e, v.f, v.g, v.h].flatMap fun x => bitsOfNat 32 x.toNat

end Hash

/-- The 32-bit word at position `t` of a block. -/
def wordAt (block : List Bool) (t : Nat) : Word :=
  BitVec.ofNat 32 (natOfBits ((block.drop (32 * t)).take 32))

/-- The message schedule. -/
def schedule (block : List Bool) (t : Nat) : Word :=
  if t < 16 then wordAt block t
  else smallSigma1 (schedule block (t - 2)) + schedule block (t - 7) +
    smallSigma0 (schedule block (t - 15)) + schedule block (t - 16)
termination_by t

/-- One round with the constant `k` and the word `w` of the schedule. -/
def round (v : Hash) (k w : Word) : Hash :=
  let t₁ := v.h + bigSigma1 v.e + ch v.e v.f v.g + k + w
  let t₂ := bigSigma0 v.a + maj v.a v.b v.c
  { a := t₁ + t₂, b := v.a, c := v.b, d := v.c, e := v.d + t₁, f := v.e, g := v.f, h := v.g }

/-- The intermediate hash value after a block. -/
noncomputable def compress (v : Hash) (block : List Bool) : Hash :=
  v.add ((List.range 64).foldl (fun v t => round v (roundConstant t) (schedule block t)) v)

/-- Some number of zeros fills up the last block. -/
theorem exists_zero_count (length : Nat) : ∃ k, (length + 1 + k) % 512 = 448 :=
  ⟨959 - length % 512, by omega⟩

/-- The number of zeros in the padding: the least `k` with `length + 1 + k ≡ 448` modulo 512. -/
def zeroCount (length : Nat) : Nat := Nat.find (exists_zero_count length)

/-- The padding: a one, zeros, and the length in 64 bits. -/
def pad (message : List Bool) : List Bool :=
  message ++ true :: List.replicate (zeroCount message.length) false ++
    bitsOfNat 64 message.length

/-- The block at position `i`. -/
def blockAt (padded : List Bool) (i : Nat) : List Bool := (padded.drop (512 * i)).take 512

/-- SHA-256 of a message of less than `2 ^ 64` bits. -/
noncomputable def sha256 (message : List Bool) : List Bool :=
  ((List.range ((pad message).length / 512)).foldl
    (fun v i => compress v (blockAt (pad message) i)) .initial).bits

/-! ## Lemmas -/

/-- A solution below 512 is the least one. -/
theorem zero_count_eq {length k : Nat} (hlt : k < 512) (h : (length + 1 + k) % 512 = 448) :
    zeroCount length = k := by
  refine (Nat.find_eq_iff _).mpr ⟨h, fun j hj hsolves => ?_⟩
  omega

/-- The bits of a fraction from the integer part of the scaled number. -/
theorem fraction_bits_eq {x : ℝ} {n : Nat} (hle : n ≤ x * 2 ^ 32) (hlt : x * 2 ^ 32 < n + 1) :
    fractionBits x = BitVec.ofNat 32 n := by
  have hfloor : ⌊x * 2 ^ 32⌋ = n :=
    Int.floor_eq_iff.mpr ⟨by exact_mod_cast hle, by exact_mod_cast hlt⟩
  have hfract : ⌊Int.fract x * 2 ^ 32⌋ = n - ⌊x⌋ * 2 ^ 32 := by
    rw [← hfloor, ← Int.floor_sub_intCast]
    congr 1
    push_cast
    rw [Int.fract]
    ring
  have hnat : ((⌊Int.fract x * 2 ^ 32⌋₊ : Nat) : Int) = n - ⌊x⌋ * 2 ^ 32 := by
    rw [← hfract]
    exact Int.natCast_floor_eq_floor (mul_nonneg (Int.fract_nonneg x) (by positivity))
  unfold fractionBits
  apply BitVec.eq_of_toNat_eq
  rw [BitVec.toNat_ofNat, BitVec.toNat_ofNat]
  omega

/-- The bits of a root, when its integer part is determined after scaling. -/
theorem root_bits_eq {k p n : Nat} {x : ℝ} (hk : k ≠ 0) (hx : 0 ≤ x) (hroot : x ^ k = p)
    (hle : n ^ k ≤ p * 2 ^ (32 * k)) (hlt : p * 2 ^ (32 * k) < (n + 1) ^ k) :
    fractionBits x = BitVec.ofNat 32 n := by
  have hscaled : (x * 2 ^ 32) ^ k = (p * 2 ^ (32 * k) : ℕ) := by
    rw [mul_pow, hroot, ← pow_mul]
    push_cast
    rfl
  have hpos : 0 ≤ x * 2 ^ 32 := mul_nonneg hx (by positivity)
  apply fraction_bits_eq
  · rw [← pow_le_pow_iff_left₀ (Nat.cast_nonneg n) hpos hk, hscaled]
    exact_mod_cast hle
  · rw [← pow_lt_pow_iff_left₀ hpos (by positivity) hk, hscaled]
    exact_mod_cast hlt

/-- The fraction bits of a cube root, by exact bounds in integers. -/
theorem cube_root_bits_eq {p n : Nat} (hle : n ^ 3 ≤ p * 2 ^ 96) (hlt : p * 2 ^ 96 < (n + 1) ^ 3) :
    fractionBits ((p : ℝ) ^ (1 / 3 : ℝ)) = BitVec.ofNat 32 n := by
  refine root_bits_eq (by decide : 3 ≠ 0) (Real.rpow_nonneg (Nat.cast_nonneg p) _) ?_ hle hlt
  rw [← Real.rpow_natCast, ← Real.rpow_mul (Nat.cast_nonneg p)]
  norm_num

/-- The fraction bits of a square root, by exact bounds in integers. -/
theorem square_root_bits_eq {p n : Nat} (hle : n ^ 2 ≤ p * 2 ^ 64)
    (hlt : p * 2 ^ 64 < (n + 1) ^ 2) : fractionBits √p = BitVec.ofNat 32 n :=
  root_bits_eq (by decide : 2 ≠ 0) (Real.sqrt_nonneg _) (Real.sq_sqrt (Nat.cast_nonneg p)) hle hlt

/-- The first 64 primes. -/
def firstPrimes : List Nat := [
  2, 3, 5, 7, 11, 13, 17, 19, 23, 29, 31, 37, 41, 43, 47, 53, 59, 61, 67, 71, 73, 79, 83, 89, 97,
  101, 103, 107, 109, 113, 127, 131, 137, 139, 149, 151, 157, 163, 167, 173, 179, 181, 191, 193,
  197, 199, 211, 223, 227, 229, 233, 239, 241, 251, 257, 263, 269, 271, 277, 281, 283, 293, 307,
  311]

/-- Below 324 a number with no proper divisor below 18 is prime. -/
theorem prime_iff_mem_first_primes {n : Nat} (hn : n < 312) : n.Prime ↔ n ∈ firstPrimes := by
  have htable : ∀ n < 312, (2 ≤ n ∧ ∀ m < 18, 2 ≤ m → m * m ≤ n → ¬ m ∣ n) ↔ n ∈ firstPrimes := by
    decide +kernel
  rw [← htable n hn, Nat.prime_def_le_sqrt]
  refine and_congr_right fun _ => ⟨fun h m _ htwo hsq => h m htwo (Nat.le_sqrt.mpr hsq),
    fun h m htwo hle => ?_⟩
  have hsq := Nat.le_sqrt.mp hle
  exact h m (by nlinarith) htwo hsq

/-- The primes that the standard counts are the listed ones. -/
theorem nth_prime_eq {t : Nat} (ht : t < 64) : Nat.nth Nat.Prime t = firstPrimes.getD t 0 := by
  have htable : ∀ t < 64, firstPrimes.getD t 0 < 312 ∧ firstPrimes.getD t 0 ∈ firstPrimes ∧
      Nat.count (· ∈ firstPrimes) (firstPrimes.getD t 0) = t := by decide +kernel
  obtain ⟨hlt, hmem, hcount⟩ := htable t ht
  have hprimes : Nat.count Nat.Prime (firstPrimes.getD t 0) = t := by
    refine Eq.trans ?_ hcount
    rw [Nat.count_eq_card_filter_range, Nat.count_eq_card_filter_range]
    congr 1
    refine Finset.filter_congr fun n hn => prime_iff_mem_first_primes ?_
    exact Nat.lt_trans (Finset.mem_range.mp hn) hlt
  nth_rewrite 1 [← hprimes]
  exact Nat.nth_count ((prime_iff_mem_first_primes hlt).mpr hmem)

end Foundation.Sha2
