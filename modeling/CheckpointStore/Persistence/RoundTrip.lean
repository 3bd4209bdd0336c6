import CheckpointStore.Foundation.Decoding
import CheckpointStore.Persistence.RecordCodec

/-!
# Reading back what was written

For every reader `Decodes` names the string that the matching writer produces, the value that
is read back and the exact condition under which it is read back at all. Integers, flags and
digests are always read back; a list is, when it is not longer than `maxRecords` and its
elements are. A creation time comes back in whole milliseconds (`CheckpointRecord.truncated`),
everything else as it was.
-/

namespace CheckpointStore

open Foundation Foundation.Procedure Foundation.Decoding

variable {α β : Type}

/-- What is still to be read. -/
def BinReader.rest (r : BinReader) : Bytes := r.view.drop r.pos

/-- On inputs that start with `bs`, the reader consumes `bs` and returns `v` exactly when `ok`
holds, and throws otherwise. -/
def Decodes (m : Proc BinReader α) (bs : Bytes) (ok : Prop) (v : α) : Prop :=
  Parses BinReader.rest (2 ^ 32) (fun _ => True) m bs ok (fun a _ => a = v) (fun _ => True)

namespace Decodes

variable {m : Proc BinReader α} {f : α → Proc BinReader β} {bs bs' : Bytes} {ok ok' : Prop} {v : α}
  {v' : β}

theorem ret (v : α) : Decodes (pure v) [] True v :=
  (parses_pure v).mono (fun _ _ => rfl) Iff.rfl (fun _ _ h => h) (fun _ h => h)

theorem congr (h : Decodes m bs ok v) (hok : ok ↔ ok') : Decodes m bs ok' v :=
  h.mono (fun _ h => h) hok (fun _ _ h => h) (fun _ h => h)

/-- A field that may be refused, and the rest. -/
theorem bind (h : Decodes m bs ok v) (h' : Decodes (f v) bs' ok' v') :
    Decodes (m >>= f) (bs ++ bs') (ok ∧ ok') v' := by
  refine parses_bind h fun a => ?_
  rintro s suffix rfl hrest hlimit
  exact h' s suffix trivial hrest hlimit

/-- A field that is always read back, and the rest. -/
theorem field (h : Decodes m bs True v) (h' : Decodes (f v) bs' ok v') :
    Decodes (m >>= f) (bs ++ bs') ok v' :=
  (h.bind h').congr (iff_of_eq (true_and _))

/-- The last field. -/
theorem last (h : Decodes m bs ok v) (h' : f v = pure v') : Decodes (m >>= f) bs ok v' := by
  have hboth := h.bind (h' ▸ ret v' : Decodes (f v) [] True v')
  rw [List.append_nil] at hboth
  exact hboth.congr (iff_of_eq (and_true _))

end Decodes

/-! ## Integers -/

/-- Putting the low bytes of a word back together. -/
theorem or_bytes (v : UInt64) {n : Nat} (hn : n ≤ 8) :
    ((List.range n).foldl (fun acc i =>
      acc ||| ((v >>> UInt64.ofNat (8 * i)).toUInt8.toUInt64 <<< UInt64.ofNat (8 * i))) 0).toNat =
      v.toNat % 2 ^ (8 * n) := by
  induction n with
  | zero => simp [Nat.mod_one]
  | succ n ih =>
      have hshift : (UInt64.ofNat (8 * n)).toNat % 64 = 8 * n := by
        rw [UInt64.toNat_ofNat', Nat.mod_eq_of_lt (by omega), Nat.mod_eq_of_lt (by omega)]
      have hbyte : v.toNat / 2 ^ (8 * n) % 2 ^ 8 < 2 ^ 8 := Nat.mod_lt _ (by decide)
      have hlow : v.toNat % 2 ^ (8 * n) < 2 ^ (8 * n) := Nat.mod_lt _ (Nat.two_pow_pos _)
      -- The next byte lies above everything read so far and inside the word.
      have hfits : v.toNat / 2 ^ (8 * n) % 2 ^ 8 * 2 ^ (8 * n) < 2 ^ 64 :=
        calc v.toNat / 2 ^ (8 * n) % 2 ^ 8 * 2 ^ (8 * n)
            < 2 ^ 8 * 2 ^ (8 * n) := Nat.mul_lt_mul_of_pos_right hbyte (Nat.two_pow_pos _)
          _ = 2 ^ (8 + 8 * n) := (Nat.pow_add 2 8 (8 * n)).symm
          _ ≤ 2 ^ 64 := Nat.pow_le_pow_right (by decide) (by omega)
      rw [List.range_succ, List.foldl_append, List.foldl_cons, List.foldl_nil, UInt64.toNat_or,
        ih (by omega), UInt64.toNat_shiftLeft, UInt8.toNat_toUInt64, UInt64.toNat_toUInt8,
        UInt64.toNat_shiftRight, hshift, Nat.shiftRight_eq_div_pow, Nat.shiftLeft_eq,
        Nat.mod_eq_of_lt hfits, Nat.mul_comm _ (2 ^ (8 * n)), Nat.or_comm,
        ← Nat.two_pow_add_eq_or_of_lt hlow, Nat.mul_succ, Nat.pow_add, Nat.mod_mul, Nat.add_comm]

/-- A number takes as many bytes as it is wide. -/
theorem put_le_length (v : UInt64) (width : Nat) : (BinWriter.putLe v width).length = width := by
  simp [BinWriter.putLe]

/-- Every string of up to eight bytes spells a word. -/
theorem put_le_surjective (bs : Bytes) (hlength : bs.length ≤ 8) :
    ∃ v : UInt64, v.toNat < 2 ^ (8 * bs.length) ∧ BinWriter.putLe v bs.length = bs := by
  induction bs with
  | nil => exact ⟨0, by decide, rfl⟩
  | cons b rest ih =>
      rw [List.length_cons] at hlength
      obtain ⟨v, hv, hput⟩ := ih (by omega)
      have hbyte := b.toNat_lt
      have hpower : 2 ^ (8 * (rest.length + 1)) = 2 ^ 8 * 2 ^ (8 * rest.length) := by
        rw [← Nat.pow_add]
        congr 1
        omega
      have hword : b.toNat + 2 ^ 8 * v.toNat < 2 ^ (8 * (rest.length + 1)) := by
        rw [hpower]
        omega
      have hfits : b.toNat + 2 ^ 8 * v.toNat < 2 ^ 64 :=
        Nat.lt_of_lt_of_le hword (Nat.pow_le_pow_right (by decide) (by omega))
      have hnat : (UInt64.ofNat (b.toNat + 2 ^ 8 * v.toNat)).toNat = b.toNat + 2 ^ 8 * v.toNat :=
        UInt64.toNat_ofNat_of_lt' hfits
      refine ⟨UInt64.ofNat (b.toNat + 2 ^ 8 * v.toNat), by rw [hnat]; exact hword, ?_⟩
      -- The first byte is `b`, and the others are those of `v`.
      have hshift : ∀ i < 8, (UInt64.ofNat (8 * i)).toNat % 64 = 8 * i := by
        intro i hi
        rw [UInt64.toNat_ofNat', Nat.mod_eq_of_lt (by omega), Nat.mod_eq_of_lt (by omega)]
      rw [List.length_cons, BinWriter.putLe, List.range_succ_eq_map, List.map_cons, List.map_map]
      congr 1
      · rw [← UInt8.toNat_inj, UInt64.toNat_toUInt8, UInt64.toNat_shiftRight, hshift 0 (by decide),
          hnat, Nat.shiftRight_eq_div_pow]
        omega
      · conv_rhs => rw [← hput, BinWriter.putLe]
        refine List.map_congr_left fun i hi => ?_
        have hi' : i < rest.length := List.mem_range.mp hi
        show (_ >>> UInt64.ofNat (8 * (i + 1))).toUInt8 = _
        rw [← UInt8.toNat_inj, UInt64.toNat_toUInt8, UInt64.toNat_toUInt8, UInt64.toNat_shiftRight,
          UInt64.toNat_shiftRight, hshift (i + 1) (by omega), hshift i (by omega), hnat,
          Nat.shiftRight_eq_div_pow, Nat.shiftRight_eq_div_pow,
          show 8 * (i + 1) = 8 + 8 * i by omega, Nat.pow_add, ← Nat.div_div_eq_div_mul]
        congr 2
        omega

/-- A word that fits into the width is read back. -/
theorem decodes_word {v : UInt64} {width : Nat} (hpos : 0 < width) (hwidth : width ≤ 8)
    (hv : v.toNat < 2 ^ (8 * width)) :
    Decodes (BinReader.word width) (BinWriter.putLe v width) True v := by
  intro r suffix _ hrest _
  have hlength : r.view.length - r.pos = width + suffix.length := by
    have hlen := congrArg List.length hrest
    rwa [BinReader.rest, List.length_drop, List.length_append, put_le_length] at hlen
  have hget : BinReader.getLe r.view r.pos width = .ok v := by
    unfold BinReader.getLe
    rw [if_neg (by omega)]
    congr 1
    have hbytes : ∀ i ∈ List.range width, r.view.getD (r.pos + i) 0 =
        (v >>> UInt64.ofNat (8 * i)).toUInt8 := by
      intro i hi
      have hi' : i < width := List.mem_range.mp hi
      have hdrop : r.view[r.pos + i]? = r.rest[i]? := by
        rw [BinReader.rest, List.getElem?_drop]
      rw [List.getD_eq_getElem?_getD, hdrop, hrest,
        List.getElem?_append_left (by rw [put_le_length]; exact hi')]
      simp [BinWriter.putLe, hi']
    rw [List.foldl_ext _ (fun acc i =>
      acc ||| ((v >>> UInt64.ofNat (8 * i)).toUInt8.toUInt64 <<< UInt64.ofNat (8 * i))) _
      fun acc i hi => by rw [hbytes i hi]]
    rw [← UInt64.toNat_inj, or_bytes v hwidth, Nat.mod_eq_of_lt hv]
  simp only [Post, BinReader.word, hget]
  refine ⟨trivial, ?_, trivial⟩
  show r.view.drop (r.pos + width) = suffix
  rw [← List.drop_drop, show r.view.drop r.pos = _ from hrest]
  simp [put_le_length]

/-- A string of known length is read back. -/
theorem decodes_bytes_fixed {n : Nat} {bs : Bytes} (hn : bs.length = n) :
    Decodes (BinReader.bytesFixed n) bs True bs := by
  subst hn
  intro r suffix _ hrest _
  have hlength : r.remaining = bs.length + suffix.length := by
    have hlen := congrArg List.length hrest
    rwa [BinReader.rest, List.length_drop, List.length_append] at hlen
  have htaken : (r.view.drop r.pos).take bs.length = bs := by
    rw [show r.view.drop r.pos = _ from hrest, List.take_left]
  simp only [Post, BinReader.bytesFixed]
  rw [if_neg (by omega)]
  refine ⟨trivial, ?_, htaken⟩
  show r.view.drop (r.pos + bs.length) = suffix
  rw [← List.drop_drop, show r.view.drop r.pos = _ from hrest, List.drop_left]

theorem decodes_u8 (v : UInt8) : Decodes BinReader.u8 (BinWriter.u8 v) True v :=
  (decodes_bytes_fixed rfl).last rfl

theorem decodes_u32 (v : UInt32) : Decodes BinReader.u32 (BinWriter.u32 v) True v :=
  (decodes_word (by decide) (by decide) (by simpa using v.toNat_lt)).last (by simp)

theorem decodes_u64 (v : UInt64) : Decodes BinReader.u64 (BinWriter.u64 v) True v :=
  decodes_word (by decide) (Nat.le_refl 8) v.toNat_lt

theorem decodes_i64 (v : Int64) : Decodes BinReader.i64 (BinWriter.i64 v) True v :=
  (decodes_u64 v.toUInt64).last (by simp)

theorem decodes_boolean (v : Bool) : Decodes BinReader.boolean (BinWriter.boolean v) True v :=
  (decodes_u8 _).last (by cases v <;> rfl)

theorem decodes_id {kind : IdKind} (v : BasicId kind) :
    Decodes BinReader.id (BinWriter.id v) True v :=
  (decodes_u64 v.value).last rfl

theorem decodes_generation {kind : GenerationKind} (v : BasicGeneration kind) :
    Decodes BinReader.generation (BinWriter.generation v) True v :=
  (decodes_u64 v.value).last rfl

theorem decodes_enum [ByteEnum α] (v : α) : Decodes BinReader.enum (BinWriter.enum v) True v :=
  (decodes_u8 _).last (by rw [ByteEnum.of_byte_to_byte])

/-- A digest is read back. -/
theorem decodes_sha256 (d : Digest) : Decodes BinReader.sha256 (BinWriter.sha256 d) True d := by
  refine (decodes_bytes_fixed d.length_eq).last ?_
  congr 1
  apply Digest.ext_bytes
  show (d.bytes ++ List.replicate 32 0).take 32 = d.bytes
  rw [List.take_append_of_le_length (Nat.le_of_eq d.length_eq.symm),
    List.take_of_length_le (Nat.le_of_eq d.length_eq)]

/-- A byte string is read back with the help of its length, which fits into 64 bits. -/
theorem decodes_bytes (v : Bytes) : Decodes BinReader.bytes (BinWriter.bytes v) True v := by
  intro r suffix hP hrest hlimit
  have hlength : v.length < 2 ^ 64 := by
    rw [BinWriter.bytes, List.length_append] at hlimit
    omega
  have hsize : v.length = (byteSize v).toNat := (byte_size_to_nat hlength).symm
  exact (decodes_u64 (byteSize v)).field (decodes_bytes_fixed hsize) r suffix hP hrest hlimit

/-! ## Times -/

/-- A time in whole milliseconds, rounded towards zero. -/
def ClockPeriod.truncate (period : ClockPeriod) (tp : TimePoint) : TimePoint :=
  tp / period.perMillisecond * period.perMillisecond

/-- A time is read back up to milliseconds. -/
theorem decodes_time_point (period : ClockPeriod) (tp : TimePoint) :
    Decodes (BinReader.timePoint period) (BinWriter.timePoint period tp) True
      (period.truncate tp) :=
  (decodes_i64 _).last rfl

/-- Rounding towards zero does not move a number away from zero. -/
theorem tdiv_mul_bounds {n c : Int} (hc : 0 < c) :
    (0 ≤ n → 0 ≤ n.tdiv c ∧ n.tdiv c ≤ n.tdiv c * c ∧ n.tdiv c * c ≤ n) ∧
      (n ≤ 0 → n ≤ n.tdiv c * c ∧ n.tdiv c * c ≤ n.tdiv c ∧ n.tdiv c ≤ 0) := by
  have hnonneg : ∀ n : Int, 0 ≤ n → 0 ≤ n.tdiv c ∧ n.tdiv c ≤ n.tdiv c * c ∧
      n.tdiv c * c ≤ n := by
    intro n hn
    rw [Int.tdiv_eq_ediv_of_nonneg hn]
    have hquotient : 0 ≤ n / c := Int.ediv_nonneg hn (Int.le_of_lt hc)
    have hgrows := Int.mul_le_mul_of_nonneg_left (show (1 : Int) ≤ c from hc) hquotient
    rw [Int.mul_one] at hgrows
    exact ⟨hquotient, hgrows, Int.ediv_mul_le n (Int.ne_of_gt hc)⟩
  refine ⟨hnonneg n, fun hn => ?_⟩
  obtain ⟨hquotient, hgrows, hle⟩ := hnonneg (-n) (by omega)
  rw [Int.neg_tdiv] at hquotient hgrows hle
  rw [Int.neg_mul] at hgrows hle
  omega

/-- The milliseconds of a time that is in whole milliseconds already. -/
theorem mul_div_ticks {tp ticks : Int64} (hticks : 0 < ticks.toInt) :
    tp / ticks * ticks / ticks = tp / ticks := by
  have hlow := Int64.le_toInt tp
  have hhigh := Int64.toInt_lt tp
  obtain ⟨hpos, hneg⟩ := tdiv_mul_bounds (n := tp.toInt) hticks
  -- Neither the quotient nor the rounded time leaves the range of a time.
  have hinside : ∀ n : Int, -2 ^ 63 ≤ n → n < 2 ^ 63 → n.bmod (2 ^ 64) = n := by
    intro n hlow hhigh
    apply Int.bmod_eq_of_le <;> omega
  have hquotient : (tp / ticks).toInt = tp.toInt.tdiv ticks.toInt := by
    rw [Int64.toInt_div]
    rcases Int.le_total 0 tp.toInt with hn | hn
    · have := hpos hn
      exact hinside _ (by omega) (by omega)
    · have := hneg hn
      exact hinside _ (by omega) (by omega)
  have hrounded : (tp / ticks * ticks).toInt = tp.toInt.tdiv ticks.toInt * ticks.toInt := by
    rw [Int64.toInt_mul, hquotient]
    rcases Int.le_total 0 tp.toInt with hn | hn
    · have := hpos hn
      exact hinside _ (by omega) (by omega)
    · have := hneg hn
      exact hinside _ (by omega) (by omega)
  rw [← Int64.toInt_inj, Int64.toInt_div, hrounded, Int.mul_tdiv_cancel _ (Int.ne_of_gt hticks),
    ← hquotient]
  exact hinside _ (Int64.le_toInt _) (Int64.toInt_lt _)

/-- A rounded time is written as the same milliseconds. -/
theorem time_point_truncate (period : ClockPeriod) (tp : TimePoint) :
    BinWriter.timePoint period (period.truncate tp) = BinWriter.timePoint period tp := by
  unfold BinWriter.timePoint ClockPeriod.truncate
  rw [mul_div_ticks]
  cases period <;> decide

/-! ## Lists and optional values -/

/-- A count is read back unless it exceeds the bound. -/
theorem decodes_count {n : Nat} (hn : n < 2 ^ 32) :
    Decodes BinReader.count (BinWriter.count n) (n ≤ BinReader.maxRecords) n := by
  have hcast : (UInt32.ofNat n).toNat = n := by
    rw [UInt32.toNat_ofNat', Nat.mod_eq_of_lt hn]
  intro r suffix _ hrest hlimit
  unfold BinReader.count
  rw [post_bind]
  refine (decodes_u32 (UInt32.ofNat n) r suffix trivial hrest hlimit).mono (fun a r' h => ?_)
    (fun _ _ h => absurd trivial h.1)
  obtain ⟨_, hrest', rfl⟩ := h
  rw [post_ite, hcast]
  exact ⟨fun hlarge => ⟨by omega, trivial⟩, fun hsmall => ⟨by omega, hrest', rfl⟩⟩

section Lists

variable {read : Proc BinReader β} {write : α → Bytes} {ok : α → Prop} {f : α → β}

/-- Elements in a row are read back one by one. -/
theorem decodes_repeated (hread : ∀ x, Decodes read (write x) (ok x) (f x)) (xs : List α) :
    Decodes (BinReader.repeated read xs.length) (xs.flatMap write) (∀ x ∈ xs, ok x)
      (xs.map f) := by
  induction xs with
  | nil => exact (Decodes.ret []).congr (by simp)
  | cons x rest ih =>
      have hrest : Decodes (do
          let tail ← BinReader.repeated read rest.length
          pure (f x :: tail)) (rest.flatMap write) (∀ x ∈ rest, ok x) (f x :: rest.map f) :=
        ih.last rfl
      exact ((hread x).bind hrest).congr (by simp)

/-- Every element takes at least one byte. -/
theorem length_le_list_length (hwrite : ∀ x, write x ≠ []) (xs : List α) :
    xs.length ≤ (BinWriter.list write xs).length := by
  have hbytes : xs.length ≤ (xs.flatMap write).length := by
    induction xs with
    | nil => exact Nat.le_refl 0
    | cons x rest ih =>
        have hx := List.length_pos_iff.mpr (hwrite x)
        rw [List.flatMap_cons, List.length_append, List.length_cons]
        omega
  rw [BinWriter.list, List.length_append]
  omega

/-- A list is read back unless it is too long or an element is refused. -/
theorem decodes_list (hread : ∀ x, Decodes read (write x) (ok x) (f x))
    (hwrite : ∀ x, write x ≠ []) (xs : List α) :
    Decodes (BinReader.list read) (BinWriter.list write xs)
      (xs.length ≤ BinReader.maxRecords ∧ ∀ x ∈ xs, ok x) (xs.map f) := by
  intro r suffix hP hrest hlimit
  have hlength : xs.length < 2 ^ 32 := Nat.lt_of_le_of_lt (length_le_list_length hwrite xs) hlimit
  exact (decodes_count hlength).bind (decodes_repeated hread xs) r suffix hP hrest hlimit

/-- The case of elements that come back as they were. -/
theorem decodes_list_self {read : Proc BinReader α}
    (hread : ∀ x, Decodes read (write x) (ok x) x) (hwrite : ∀ x, write x ≠ []) (xs : List α) :
    Decodes (BinReader.list read) (BinWriter.list write xs)
      (xs.length ≤ BinReader.maxRecords ∧ ∀ x ∈ xs, ok x) xs := by
  have h := decodes_list hread hwrite xs
  rwa [List.map_id'] at h

end Lists

theorem id_ne_nil {kind : IdKind} (v : BasicId kind) : BinWriter.id v ≠ [] := by
  simp [BinWriter.id, BinWriter.u64, BinWriter.putLe]

/-- A list of identities is read back if it is not too long. -/
theorem decodes_ids {kind : IdKind} (xs : List (BasicId kind)) :
    Decodes (BinReader.list BinReader.id) (BinWriter.list BinWriter.id xs)
      (xs.length ≤ BinReader.maxRecords) xs :=
  (decodes_list_self (fun x => decodes_id x) id_ne_nil xs).congr (by simp)

/-- An optional value is read back. -/
theorem decodes_optional {read : Proc BinReader α} {write : α → Bytes}
    (hread : ∀ x, Decodes read (write x) True x) (x : Option α) :
    Decodes (BinReader.optional read) (BinWriter.optional write x) True x := by
  cases x with
  | none => exact (decodes_boolean false).last rfl
  | some a => exact (decodes_boolean true).field ((hread a).last rfl)

/-! ## Records -/

/-- No list of the descriptor is too long to be read back. -/
def CheckpointDescriptor.Fits (d : CheckpointDescriptor) : Prop :=
  d.lineage.length ≤ BinReader.maxRecords ∧ d.references.length ≤ BinReader.maxRecords

/-- The lists of a manifest are short enough. -/
def CheckpointManifest.Fits (m : CheckpointManifest) : Prop :=
  m.chunks.length ≤ BinReader.maxRecords ∧ m.lineage.length ≤ BinReader.maxRecords

/-- The placements of a chunk are few enough. -/
def ChunkDescriptor.Fits (c : ChunkDescriptor) : Prop :=
  c.placements.length ≤ BinReader.maxRecords

/-- The replicas of a set are few enough. -/
def ReplicaSet.Fits (s : ReplicaSet) : Prop := s.replicas.length ≤ BinReader.maxRecords

/-- The replicas of a blob are few enough. -/
def BlobDescriptor.Fits (b : BlobDescriptor) : Prop := b.replicas.length ≤ BinReader.maxRecords

/-- The checkpoints of a family are few enough. -/
def FamilyRecord.Fits (f : FamilyRecord) : Prop :=
  f.checkpointIds.length ≤ BinReader.maxRecords

/-- All lists of a record are short enough. -/
def CheckpointRecord.Fits (r : CheckpointRecord) : Prop :=
  r.descriptor.Fits ∧ r.manifest.Fits ∧
    (r.chunks.length ≤ BinReader.maxRecords ∧ ∀ c ∈ r.chunks, c.Fits) ∧ r.replicaSet.Fits

/-- A descriptor with its creation time in whole milliseconds. -/
def CheckpointDescriptor.truncated (period : ClockPeriod) (d : CheckpointDescriptor) :
    CheckpointDescriptor :=
  { d with createdAt := period.truncate d.createdAt }

/-- A record with its time in milliseconds. -/
def CheckpointRecord.truncated (period : ClockPeriod) (r : CheckpointRecord) :
    CheckpointRecord :=
  { r with descriptor := r.descriptor.truncated period }

open Decodes in
/-- A descriptor is read back with its time in milliseconds. -/
theorem decodes_descriptor (period : ClockPeriod) (d : CheckpointDescriptor) :
    Decodes (BinReader.readDescriptor period) (BinWriter.writeDescriptor period d) d.Fits
      (d.truncated period) := by
  unfold BinWriter.writeDescriptor
  simp only [List.append_assoc]
  refine congr (field (decodes_id _) <| field (decodes_id _) <| field (decodes_generation _) <|
    field (decodes_enum _) <| field (decodes_u64 _) <| field (decodes_time_point period _) <|
    field (decodes_id _) <| field (decodes_id _) <| field (decodes_generation _) <|
    field (decodes_optional decodes_id _) <| field (decodes_optional decodes_id _) <|
    bind (decodes_ids _) <| bind (decodes_ids _) <| field (decodes_bytes _) <|
    field (decodes_enum _) <| field (decodes_enum _) <| field (decodes_enum _) <|
    field (decodes_enum _) <| field (decodes_generation _) <| last (decodes_u64 _) rfl) ?_
  simp [CheckpointDescriptor.Fits]

theorem decodes_manifest_entry (e : ManifestEntry) :
    Decodes BinReader.readManifestEntry (BinWriter.writeManifestEntry e) True e :=
  (decodes_id _).field ((decodes_u64 _).last rfl)

theorem manifest_entry_ne_nil (e : ManifestEntry) : BinWriter.writeManifestEntry e ≠ [] :=
  List.append_ne_nil_of_left_ne_nil (id_ne_nil _) _

open Decodes in
/-- A manifest is read back. -/
theorem decodes_manifest (m : CheckpointManifest) :
    Decodes BinReader.readManifest (BinWriter.writeManifest m) m.Fits m := by
  unfold BinWriter.writeManifest
  simp only [List.append_assoc]
  refine congr (field (decodes_id _) <| field (decodes_generation _) <| field (decodes_id _) <|
    field (decodes_generation _) <|
    bind (decodes_list_self decodes_manifest_entry manifest_entry_ne_nil _) <|
    field (decodes_u64 _) <|
    field (decodes_sha256 _) <| bind (decodes_ids _) <|
    field (decodes_optional decodes_id _) <| field (decodes_optional decodes_id _) <|
    field (decodes_enum _) <| field (decodes_enum _) <| field (decodes_u64 _) <|
    last (decodes_sha256 _) rfl) ?_
  simp [CheckpointManifest.Fits]

open Decodes in
/-- A chunk is read back. -/
theorem decodes_chunk (c : ChunkDescriptor) :
    Decodes BinReader.readChunk (BinWriter.writeChunk c) c.Fits c := by
  unfold BinWriter.writeChunk
  simp only [List.append_assoc]
  refine congr (field (decodes_id _) <| field (decodes_generation _) <| field (decodes_u64 _) <|
    field (decodes_u64 _) <| field (decodes_u64 _) <| field (decodes_sha256 _) <|
    field (decodes_id _) <| bind (decodes_ids _) <| field (decodes_u64 _) <|
    field (decodes_enum _) <| field (decodes_enum _) <| field (decodes_boolean _) <|
    last (decodes_bytes _) rfl) ?_
  simp [ChunkDescriptor.Fits]

theorem chunk_ne_nil (c : ChunkDescriptor) : BinWriter.writeChunk c ≠ [] := by
  simp only [BinWriter.writeChunk, List.append_assoc]
  exact List.append_ne_nil_of_left_ne_nil (id_ne_nil _) _

open Decodes in
/-- A replica set is read back. -/
theorem decodes_replica_set (s : ReplicaSet) :
    Decodes BinReader.readReplicaSet (BinWriter.writeReplicaSet s) s.Fits s := by
  unfold BinWriter.writeReplicaSet
  simp only [List.append_assoc]
  refine congr (field (decodes_id _) <| field (decodes_generation _) <| field (decodes_u64 _) <|
    bind (decodes_ids _) <| field (decodes_enum _) <| field (decodes_generation _) <|
    last (decodes_enum _) rfl) ?_
  simp [ReplicaSet.Fits]

open Decodes in
/-- A blob is read back. -/
theorem decodes_blob_descriptor (b : BlobDescriptor) :
    Decodes BinReader.readBlobDescriptor (BinWriter.writeBlobDescriptor b) b.Fits b := by
  unfold BinWriter.writeBlobDescriptor
  simp only [List.append_assoc]
  exact field (decodes_id _) <| field (decodes_generation _) <| field (decodes_u64 _) <|
    field (decodes_sha256 _) <| field (decodes_u64 _) <| field (decodes_u64 _) <|
    field (decodes_enum _) <| field (decodes_enum _) <| field (decodes_enum _) <|
    field (decodes_enum _) <| last (decodes_ids _) rfl

open Decodes in
/-- A replica is read back. -/
theorem decodes_replica (r : ReplicaDescriptor) :
    Decodes BinReader.readReplica (BinWriter.writeReplica r) True r := by
  unfold BinWriter.writeReplica
  simp only [List.append_assoc]
  exact field (decodes_id _) <| field (decodes_generation _) <| field (decodes_id _) <|
    field (decodes_enum _) <| field (decodes_enum _) <| field (decodes_enum _) <|
    field (decodes_enum _) <| field (decodes_u64 _) <| last (decodes_enum _) rfl

open Decodes in
/-- A placement is read back. -/
theorem decodes_placement (p : PlacementDescriptor) :
    Decodes BinReader.readPlacement (BinWriter.writePlacement p) True p := by
  unfold BinWriter.writePlacement
  simp only [List.append_assoc]
  exact field (decodes_id _) <| field (decodes_generation _) <| field (decodes_id _) <|
    field (decodes_id _) <| field (decodes_id _) <| field (decodes_id _) <|
    field (decodes_id _) <| field (decodes_u64 _) <| field (decodes_enum _) <|
    last (decodes_enum _) rfl

open Decodes in
/-- A retention policy is read back. -/
theorem decodes_retention (p : RetentionPolicy) :
    Decodes BinReader.readRetention (BinWriter.writeRetention p) True p := by
  unfold BinWriter.writeRetention
  simp only [List.append_assoc]
  exact field (decodes_id _) <| field (decodes_id _) <| field (decodes_enum _) <|
    field (decodes_u64 _) <| field (decodes_u64 _) <| field (decodes_boolean _) <|
    field (decodes_boolean _) <| field (decodes_boolean _) <| field (decodes_generation _) <|
    last (decodes_enum _) (by simp)

open Decodes in
/-- A family is read back. -/
theorem decodes_family (f : FamilyRecord) :
    Decodes BinReader.readFamily (BinWriter.writeFamily f) f.Fits f := by
  unfold BinWriter.writeFamily
  simp only [List.append_assoc]
  exact field (decodes_id _) <| field (decodes_generation _) <| last (decodes_ids _) rfl

open Decodes in
/-- A checkpoint record comes back with its creation time in whole milliseconds. -/
theorem decodes_record (period : ClockPeriod) (r : CheckpointRecord) :
    Decodes (BinReader.readRecord period) (BinWriter.writeRecord period r) r.Fits
      (r.truncated period) := by
  unfold BinWriter.writeRecord
  simp only [List.append_assoc]
  refine congr (bind (decodes_descriptor period _) <| bind (decodes_manifest _) <|
    bind (decodes_list_self decodes_chunk chunk_ne_nil _) <| bind (decodes_replica_set _) <|
    field (decodes_enum _) <| field (decodes_enum _) <| last (decodes_enum _) rfl) ?_
  simp [CheckpointRecord.Fits]

/-- A record that was read back is written as the same bytes. -/
theorem write_record_truncated (period : ClockPeriod) (r : CheckpointRecord) :
    BinWriter.writeRecord period (r.truncated period) = BinWriter.writeRecord period r := by
  unfold BinWriter.writeRecord BinWriter.writeDescriptor
  simp only [CheckpointRecord.truncated, CheckpointDescriptor.truncated, time_point_truncate]

end CheckpointStore
