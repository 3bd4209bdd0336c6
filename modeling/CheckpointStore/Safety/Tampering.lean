import CheckpointStore.Model.Checksum
import CheckpointStore.Persistence.Parsing
import CheckpointStore.Runs.Registry
import CheckpointStore.Safety.Durability
import CheckpointStore.Safety.Reloading

/-!
# Damaged state files

`read_body_ok_iff` says that the frames `load_state` accepts are the frames `save_state` writes
around bodies of up to `2 ^ 31` bytes. A damaged file is therefore accepted only if it is a frame
itself, and `damaged_state_file_rejected` excludes that for extensions, for a changed byte, and for
a burst of up to four bytes in the body. From `2 ^ 32` bytes on the length field wraps around, and a
prefix is a frame exactly if the bytes that the field counts are followed by their own checksum and
digest (`WrapsToFrame`); it can then be the frame of another store (`prefix_of_saved_file_loads`).
-/

namespace CheckpointStore

open Foundation Foundation.Procedure Foundation.UnorderedMap

variable {W α : Type}

/-! ## Strings that agree outside of a window -/

/-- The strings are equally long and agree outside of the `n` bytes from position `i` on. -/
def AgreeOutside (i n : Nat) (v w : Bytes) : Prop :=
  v.length = w.length ∧ ∀ j, j < i ∨ i + n ≤ j → v[j]? = w[j]?

namespace AgreeOutside

variable {i n : Nat} {v w : Bytes}

/-- With the window behind the end the strings are equal. -/
theorem eq_of_le (h : AgreeOutside i n v w) (hi : v.length ≤ i) : v = w := by
  refine List.ext_getElem? fun j => ?_
  by_cases hj : j < i
  · exact h.2 j (.inl hj)
  · rw [List.getElem?_eq_none (by omega), List.getElem?_eq_none (by have := h.1; omega)]

/-- So they are with an empty window. -/
theorem eq_of_empty (h : AgreeOutside i n v w) (hn : n = 0) : v = w :=
  List.ext_getElem? fun j => h.2 j (by omega)

theorem parts (h : AgreeOutside i n v w) :
    ∃ front xs ys back, v = front ++ xs ++ back ∧ w = front ++ ys ++ back ∧
      xs.length = ys.length ∧ xs.length ≤ n := by
  have hlength := h.1
  have hfront : v.take i = w.take i := by
    refine List.ext_getElem? fun j => ?_
    rw [List.getElem?_take, List.getElem?_take]
    split
    · next hj => exact h.2 j (.inl hj)
    · rfl
  have hback : v.drop (i + n) = w.drop (i + n) := by
    refine List.ext_getElem? fun j => ?_
    rw [List.getElem?_drop, List.getElem?_drop]
    exact h.2 _ (.inr (by omega))
  have hsplit : ∀ u : Bytes, u = u.take i ++ (u.drop i).take n ++ u.drop (i + n) := by
    intro u
    rw [List.append_assoc, ← List.drop_drop, List.take_append_drop, List.take_append_drop]
  refine ⟨v.take i, (v.drop i).take n, (w.drop i).take n, v.drop (i + n), hsplit v, ?_, ?_, ?_⟩
  · rw [hfront, hback]
    exact hsplit w
  · simp only [List.length_take, List.length_drop, hlength]
  · rw [List.length_take]
    omega

/-- The checksum tells such strings apart, if the window has up to four bytes. -/
theorem eq_of_crc (h : AgreeOutside i n v w) (hn : n ≤ 4) (hcrc : crc32 v = crc32 w) : v = w := by
  obtain ⟨front, xs, ys, back, rfl, rfl, hlength, hshort⟩ := h.parts
  rw [crc32_burst_injective hlength (by omega) hcrc]

/-- The parts of equally divided strings agree outside of their parts of the window. -/
theorem of_append {a b : Bytes} (hab : a.length = b.length)
    (h : AgreeOutside i n (a ++ v) (b ++ w)) :
    AgreeOutside i n a b ∧
      AgreeOutside (i - a.length) (i + n - a.length - (i - a.length)) v w := by
  have hlength := h.1
  rw [List.length_append, List.length_append] at hlength
  refine ⟨⟨hab, fun j hj => ?_⟩, by omega, fun j hj => ?_⟩
  · by_cases hin : j < a.length
    · have hsame := h.2 j hj
      rwa [List.getElem?_append_left hin, List.getElem?_append_left (by omega)] at hsame
    · rw [List.getElem?_eq_none (by omega), List.getElem?_eq_none (by omega)]
  · have hsame := h.2 (a.length + j) (by omega)
    rwa [List.getElem?_append_right (by omega), List.getElem?_append_right (by omega),
      Nat.add_sub_cancel_left, hab, Nat.add_sub_cancel_left] at hsame

end AgreeOutside

/-! ## Frames that are close to each other -/

/-- Everything in front of the body. -/
def frameHead (size : Nat) : Bytes :=
  frameMagic ++ BinWriter.u32 formatVersion ++ BinWriter.count size

/-- Everything behind the body. -/
def frameTail (H : StreamHash) (body : Bytes) : Bytes :=
  BinWriter.u32 (crc32 body) ++ BinWriter.sha256 (H.sha256 body)

theorem state_frame_eq (H : StreamHash) (body : Bytes) :
    stateFrame H body = frameHead body.length ++ (body ++ frameTail H body) := by
  simp only [stateFrame, frameHead, frameTail, BinWriter.bytesFixed, List.append_assoc]

theorem frame_head_length (size : Nat) : (frameHead size).length = 12 := by
  simp only [frameHead, BinWriter.u32, BinWriter.count, List.length_append, put_le_length]
  rfl

theorem frame_tail_length (H : StreamHash) (body : Bytes) : (frameTail H body).length = 36 := by
  simp only [frameTail, BinWriter.u32, BinWriter.sha256, List.length_append, put_le_length,
    Digest.length_eq]

theorem u32_injective {a b : UInt32} (h : BinWriter.u32 a = BinWriter.u32 b) : a = b := by
  have hread := fun v => decodes_u32 v { view := BinWriter.u32 v } [] trivial
    (by simp [BinReader.rest]) (by rw [BinWriter.u32, put_le_length]; decide)
  have hboth := (hread a).and (h ▸ hread b)
  cases hrun : BinReader.u32 { view := BinWriter.u32 a } with
  | ok v r =>
      obtain ⟨⟨_, _, ha⟩, _, _, hb⟩ := hboth.of_ok hrun
      exact ha.symm.trans hb
  | error e r => exact absurd trivial (hboth.of_error hrun).1.1

/-- The length field is the length modulo `2 ^ 32`. -/
theorem count_eq_iff {m n : Nat} :
    BinWriter.count m = BinWriter.count n ↔ m % 2 ^ 32 = n % 2 ^ 32 := by
  refine ⟨fun h => ?_, fun h => congrArg BinWriter.u32 (UInt32.toNat_inj.mp ?_)⟩
  · have hnat := congrArg UInt32.toNat (u32_injective h)
    rwa [UInt32.toNat_ofNat', UInt32.toNat_ofNat'] at hnat
  · rwa [UInt32.toNat_ofNat', UInt32.toNat_ofNat']

section Close

variable {H : StreamHash} {body body' : Bytes}

/-- A frame that starts with another one is that one, as long as the length field is exact. -/
theorem frame_eq_of_initial_part (hbody : body.length < 2 ^ 32) (hbody' : body'.length < 2 ^ 32)
    (h : stateFrame H body <+: stateFrame H body') : stateFrame H body = stateFrame H body' := by
  refine h.eq_of_length ?_
  rw [state_frame_eq, state_frame_eq] at h
  obtain ⟨rest, hrest⟩ := h
  rw [List.append_assoc] at hrest
  obtain ⟨hhead, _⟩ := List.append_inj hrest (by rw [frame_head_length, frame_head_length])
  have hcount := count_eq_iff.mp (List.append_inj hhead rfl).2
  rw [Nat.mod_eq_of_lt hbody, Nat.mod_eq_of_lt hbody'] at hcount
  rw [frame_length, frame_length, hcount]

/-- The length field of the frame around this body counts only a part of it, which is followed by
its own checksum and digest. -/
def WrapsToFrame (H : StreamHash) (body : Bytes) : Prop :=
  2 ^ 32 ≤ body.length ∧ body.length % 2 ^ 32 ≤ 2 ^ 31 ∧
    frameTail H (body.take (body.length % 2 ^ 32)) <+: body.drop (body.length % 2 ^ 32)

/-- A proper prefix of a frame is a frame within the bound exactly if the length field has wrapped
around to it. -/
theorem frame_initial_part_iff :
    (∃ inner, inner.length ≤ 2 ^ 31 ∧ stateFrame H inner <+: stateFrame H body ∧
      stateFrame H inner ≠ stateFrame H body) ↔ WrapsToFrame H body := by
  constructor
  · rintro ⟨inner, hshort, hinitial, hne⟩
    have hlarge : 2 ^ 32 ≤ body.length := by
      by_contra hsmall
      exact hne (frame_eq_of_initial_part (by omega) (by omega) hinitial)
    rw [state_frame_eq, state_frame_eq] at hinitial
    obtain ⟨rest, hrest⟩ := hinitial
    rw [List.append_assoc] at hrest
    obtain ⟨hhead, htail⟩ := List.append_inj hrest (by rw [frame_head_length, frame_head_length])
    have hlength : inner.length = body.length % 2 ^ 32 := by
      rw [← count_eq_iff.mp (List.append_inj hhead rfl).2, Nat.mod_eq_of_lt (by omega)]
    -- The frame ends inside of the body.
    have hinside : inner ++ frameTail H inner <+: body := by
      refine List.prefix_of_prefix_length_le ⟨rest, htail⟩ (List.prefix_append _ _) ?_
      rw [List.length_append, frame_tail_length]
      omega
    obtain ⟨after, rfl⟩ := hinside
    refine ⟨hlarge, by omega, ?_⟩
    rw [← hlength, List.append_assoc, List.take_left, List.drop_left]
    exact List.prefix_append _ _
  · rintro ⟨hlarge, hshort, htail⟩
    obtain ⟨after, hafter⟩ := htail
    have hlength : (body.take (body.length % 2 ^ 32)).length = body.length % 2 ^ 32 := by
      rw [List.length_take]
      omega
    refine ⟨body.take (body.length % 2 ^ 32), by omega, ?_, fun heq => ?_⟩
    · rw [state_frame_eq, state_frame_eq, hlength, frameHead, frameHead,
        count_eq_iff.mpr (Nat.mod_mod _ _), List.prefix_append_right_inj]
      refine List.IsPrefix.trans ⟨after, ?_⟩ (List.prefix_append _ _)
      rw [List.append_assoc, hafter, List.take_append_drop]
    · have hlengths := congrArg List.length heq
      rw [frame_length, frame_length, hlength] at hlengths
      omega

/-- Frames that agree outside of a small window in front of the checksum, or behind the body, are
the same. -/
theorem frame_eq_of_agree {i n : Nat} (hn : n ≤ 4)
    (hwindow : i + n ≤ 12 + body.length ∨ 12 + body.length ≤ i)
    (h : AgreeOutside i n (stateFrame H body) (stateFrame H body')) :
    stateFrame H body = stateFrame H body' := by
  have hlength : body.length = body'.length := by
    have hlengths := h.1
    rw [frame_length, frame_length] at hlengths
    omega
  rw [state_frame_eq, state_frame_eq] at h
  obtain ⟨_, hrest⟩ := h.of_append (by rw [frame_head_length, frame_head_length])
  rw [frame_head_length] at hrest
  obtain ⟨hbodies, htails⟩ := hrest.of_append hlength
  have hsame : body = body' := by
    rcases hwindow with hfront | hbehind
    · -- The stored checksums are the same.
      have htail : frameTail H body = frameTail H body' := htails.eq_of_empty (by omega)
      have hcrc := u32_injective (List.append_inj htail rfl).1
      exact hbodies.eq_of_crc (by omega) hcrc
    · exact hbodies.eq_of_le (by omega)
  rw [hsame]

end Close

/-! ## Damaged files -/

/-- Loading this file throws, and the store stays as it was. -/
def Rejected (V : Type) (env : Env) (file : Bytes) : Prop :=
  ∀ s : System V, s.files.find s.store.options.statePath = some file →
    ∃ e, loadState env s = .error e s

/-- A file is rejected if it is not a frame around a body within the bound. -/
theorem rejected_of_not_frame {V : Type} {env : Env} {file : Bytes}
    (h : ∀ body, file = stateFrame env.hash body → body.length ≤ 2 ^ 31 → False) :
    Rejected V env file := by
  intro s hfile
  rw [load_state_eq, hfile]
  cases hread : readBody env.hash file with
  | error e => exact ⟨e, by simp only [hread]⟩
  | ok body =>
      obtain ⟨hframe, hshort⟩ := read_body_ok_iff.mp hread
      exact (h body hframe hshort).elim

/-- A file that `save_state` has written is rejected by every store after it was extended, after one
byte was changed, and after something was changed within four consecutive bytes of the body. After
it was cut it is rejected too, unless the length field has wrapped around to another frame, which a
body of less than `2 ^ 32` bytes excludes; then some prefix passes all checks of the frame. -/
theorem damaged_state_file_rejected {V : Type} {env : Env} {s s₁ : System W}
    {answers : WriteAnswers} {raw : Bytes} (hsave : saveState env answers s = .ok () s₁)
    (hraw : s₁.files.find s.store.options.statePath = some raw) :
    ((¬ WrapsToFrame env.hash (stateBody env.period s.store) →
        ∀ v, v <+: raw → v ≠ raw → Rejected V env v) ∧
      (WrapsToFrame env.hash (stateBody env.period s.store) →
        ∃ v inner, v <+: raw ∧ v ≠ raw ∧ readBody env.hash v = .ok inner) ∧
      ((stateBody env.period s.store).length < 2 ^ 32 →
        ¬ WrapsToFrame env.hash (stateBody env.period s.store))) ∧
    (∀ v, raw <+: v → v ≠ raw → Rejected V env v) ∧
    (∀ i v, AgreeOutside i 1 raw v → v ≠ raw → Rejected V env v) ∧
    ∀ i v, 12 ≤ i → i + 4 ≤ 12 + (stateBody env.period s.store).length →
      AgreeOutside i 4 raw v → v ≠ raw → Rejected V env v := by
  have hframe : raw = stateFrame env.hash (stateBody env.period s.store) :=
    Option.some.inj (hraw.symm.trans (saved_file hsave))
  subst hframe
  generalize stateBody env.period s.store = body
  refine ⟨⟨fun hwraps v hv hne => ?_, fun hwraps => ?_,
    fun hsmall hwraps => absurd hwraps.1 (Nat.not_le.mpr hsmall)⟩, fun v hv hne => ?_,
    fun i v hv hne => ?_, fun i v _ hwindow hv hne => ?_⟩
  · refine rejected_of_not_frame fun inner hframe hshort => hwraps ?_
    subst hframe
    exact frame_initial_part_iff.mp ⟨inner, hshort, hv, hne⟩
  · obtain ⟨inner, hshort, hinitial, hne⟩ := frame_initial_part_iff.mpr hwraps
    exact ⟨_, inner, hinitial, hne, read_body_ok_iff.mpr ⟨rfl, hshort⟩⟩
  all_goals
    refine rejected_of_not_frame fun body' hframe hshort => hne ?_
    subst hframe
  · -- The extended frame is not too long, so the original one is not either.
    have hle := hv.length_le
    rw [frame_length, frame_length] at hle
    exact (frame_eq_of_initial_part (by omega) (by omega) hv).symm
  · exact (frame_eq_of_agree (by decide) (by omega) hv).symm
  · exact (frame_eq_of_agree (by decide) (.inl hwindow) hv).symm

/-- The file of a store with one empty checkpoint. -/
def savedOps : List (Op MemoryWorld) := [.createFamily, .publish (sampleDescriptor 7 1 0) []]

/-- The last byte is cut off. -/
theorem damaged_state_file_rejected_cut :
    Rejected MemoryWorld (sampleEnv tagHash) (stateFrame tagHash
      (stateBody .nanoseconds (sampleRun tagHash [] savedOps).store)).dropLast := by
  have hsave := save_state_returns (sampleEnv tagHash) (sampleRun tagHash [] savedOps)
  have hbody : (stateBody .nanoseconds (sampleRun tagHash [] savedOps).store).length < 2 ^ 32 := by
    decide +kernel
  have hshorter : ∀ v : Bytes, 0 < v.length → v.dropLast ≠ v := by
    intro v hv heq
    have hlength := congrArg List.length heq
    rw [List.length_dropLast] at hlength
    omega
  obtain ⟨⟨hcut, -, hsmall⟩, -⟩ := damaged_state_file_rejected hsave (saved_file hsave)
  exact hcut (hsmall hbody) _ (List.dropLast_prefix _)
    (hshorter _ (by rw [frame_length]; omega))

/-! ## A prefix that is a frame -/

theorem ids_length (ids : List CheckpointId) :
    (ids.flatMap BinWriter.id).length = 8 * ids.length := by
  induction ids with
  | nil => rfl
  | cons c rest ih =>
      rw [List.flatMap_cons, List.length_append, ih, BinWriter.id, BinWriter.u64, put_le_length,
        List.length_cons]
      omega

/-- Every string of whole words is written for some list of identities. -/
theorem ids_written (n : Nat) (bs : Bytes) (hlength : bs.length = 8 * n) :
    ∃ ids : List CheckpointId, ids.length = n ∧ ids.flatMap BinWriter.id = bs := by
  induction n generalizing bs with
  | zero => exact ⟨[], rfl, (List.length_eq_zero_iff.mp hlength).symm⟩
  | succ n ih =>
      obtain ⟨ids, hids, hrest⟩ := ih (bs.drop 8) (by rw [List.length_drop]; omega)
      have hword : (bs.take 8).length = 8 := by
        rw [List.length_take]
        omega
      obtain ⟨v, _, hput⟩ := put_le_surjective (bs.take 8) (by omega)
      rw [hword] at hput
      refine ⟨⟨v⟩ :: ids, by rw [List.length_cons, hids], ?_⟩
      rw [List.flatMap_cons, hrest]
      show BinWriter.putLe v 8 ++ _ = _
      rw [hput, List.take_append_drop]

/-- `2 ^ 32` identities are written with a count of zero. They can be chosen such that the frame
begins with the frame of the same body without them. -/
theorem frame_prefix_of_wrapped_count (H : StreamHash) {front back : Bytes}
    (hback : back.length ≤ 2 ^ 31) :
    ∃ ids : List CheckpointId, ids.length = 2 ^ 32 ∧
      stateFrame H (front ++ (BinWriter.list BinWriter.id ([] : List CheckpointId) ++ back)) <+:
        stateFrame H (front ++ (BinWriter.list BinWriter.id ids ++ back)) := by
  generalize hsmall :
    front ++ (BinWriter.list BinWriter.id ([] : List CheckpointId) ++ back) = small
  have htail := frame_tail_length H small
  obtain ⟨pad, hpad⟩ : ∃ pad : Bytes, pad.length = 8 * 2 ^ 32 - (back.length + 36) :=
    ⟨List.replicate _ 0, List.length_replicate⟩
  obtain ⟨ids, hids, hwritten⟩ := ids_written (2 ^ 32) (back ++ frameTail H small ++ pad)
    (by rw [List.length_append, List.length_append, htail, hpad]; omega)
  have hlist : BinWriter.list BinWriter.id ids =
      BinWriter.list BinWriter.id ([] : List CheckpointId) ++
        (back ++ frameTail H small ++ pad) := by
    rw [BinWriter.list, hids, hwritten]
    rfl
  have hbig : front ++ (BinWriter.list BinWriter.id ids ++ back) =
      small ++ (frameTail H small ++ pad ++ back) := by
    rw [hlist, ← hsmall]
    simp only [List.append_assoc]
  refine ⟨ids, hids, ?_⟩
  rw [hbig]
  generalize hrest : frameTail H small ++ pad ++ back = rest
  -- The length is the same modulo `2 ^ 32`.
  have hcount : BinWriter.count (small ++ rest).length = BinWriter.count small.length := by
    have hlength : (small ++ rest).length = small.length + 8 * 2 ^ 32 := by
      rw [← hrest]
      simp only [List.length_append, htail, hpad]
      omega
    refine congrArg BinWriter.u32 ?_
    rw [hlength, ← UInt32.toNat_inj, UInt32.toNat_ofNat', UInt32.toNat_ofNat']
    omega
  rw [state_frame_eq, state_frame_eq, frameHead, frameHead, hcount]
  generalize frameTail H (small ++ rest) = tail
  refine ⟨pad ++ back ++ tail, ?_⟩
  rw [← hrest]
  simp only [List.append_assoc]

section OneRecord

open BinWriter

/-- A descriptor in front of its references. -/
def descriptorFront (period : ClockPeriod) (d : CheckpointDescriptor) : Bytes :=
  BinWriter.id d.id ++ BinWriter.id d.familyId ++ generation d.generation ++ enum d.kind ++
    u64 d.logicalSize ++ timePoint period d.createdAt ++ BinWriter.id d.ownerId ++
    BinWriter.id d.producerBoot ++ generation d.producerGeneration ++
    optional BinWriter.id d.parentCheckpoint ++ optional BinWriter.id d.baseCheckpoint ++
    list BinWriter.id d.lineage

/-- A descriptor behind its references. -/
def descriptorBack (d : CheckpointDescriptor) : Bytes :=
  string d.compatibility ++ enum d.retention ++ enum d.durability ++ enum d.restorePriority ++
    enum d.provenance ++ generation d.policyGeneration ++ u64 d.requiredReplicaCount

theorem write_descriptor_eq (period : ClockPeriod) (d : CheckpointDescriptor) :
    writeDescriptor period d =
      descriptorFront period d ++ (list BinWriter.id d.references ++ descriptorBack d) := by
  unfold writeDescriptor descriptorFront descriptorBack
  repeat rw [List.append_assoc]

/-- The body of a store with one record, in front of the references of its checkpoint. -/
def bodyFront (period : ClockPeriod) (store : Store W) (d : CheckpointDescriptor) : Bytes :=
  headerBytes store ++ (list writeFamily (sortedByKey (fun f => f.id.value) store.families) ++
    (count 1 ++ descriptorFront period d))

/-- The body of a store with one record, behind the references of its checkpoint. -/
def bodyBack (store : Store W) (rec : CheckpointRecord) : Bytes :=
  descriptorBack rec.descriptor ++ (writeManifest rec.manifest ++ (list writeChunk rec.chunks ++
    (writeReplicaSet rec.replicaSet ++ (enum rec.lifecycle ++ (enum rec.integrity ++
    (enum rec.freshness ++
    (list writeBlobDescriptor (sortedByKey (fun b => b.id.value) store.blobs) ++
    (list writeReplica (sortedByKey (fun r => r.id.value) store.replicas) ++
    (list writePlacement (sortedByKey (fun p => p.id.value) store.placements) ++
    (list writeRetention (sortedByKey (fun p => p.id.value) store.retention) ++
    (gcBytes store.gc ++ list writeDedup (sortedDedup store.dedup))))))))))))

theorem state_body_one {period : ClockPeriod} {store : Store W} {rec : CheckpointRecord}
    (h : store.checkpoints.values = [rec]) :
    stateBody period store = bodyFront period store rec.descriptor ++
      (list BinWriter.id rec.descriptor.references ++ bodyBack store rec) := by
  have hsorted : sortedByKey (fun r => r.descriptor.id.value) store.checkpoints = [rec] := by
    rw [sortedByKey, h]
    rfl
  have hrecords : list (writeRecord period)
      (sortedByKey (fun r => r.descriptor.id.value) store.checkpoints) =
      count 1 ++ writeRecord period rec := by
    rw [hsorted, list, List.flatMap_cons, List.flatMap_nil, List.append_nil, List.length_singleton]
  unfold stateBody bodyFront bodyBack
  rw [hrecords, writeRecord, write_descriptor_eq]
  repeat rw [List.append_assoc]

end OneRecord

/-- The references of the first checkpoint are saved between two strings that do not depend on
them. -/
theorem state_body_references (env : Env) {s : System W} (hempty : s.store.checkpoints.size = 0)
    (d : CheckpointDescriptor) :
    ∃ front back, ∀ references, stateBody env.period
      (publishedStore env { d with references := references } [] (.start s)) =
        front ++ (BinWriter.list BinWriter.id references ++ back) := by
  refine ⟨bodyFront env.period (publishedStore env d [] (.start s)) d,
    bodyBack (publishedStore env d [] (.start s)) (publishedRecord env d [] (.start s)),
    fun references => ?_⟩
  have hfree := find_eq_none_of_size hempty d.id
  have hentries : s.store.checkpoints.entries = [] := List.length_eq_zero_iff.mp hempty
  have hvalues : (publishedStore env { d with references := references } []
      (.start s)).checkpoints.values =
      [publishedRecord env { d with references := references } [] (.start s)] := by
    show (s.store.checkpoints.emplace d.id _).values = _
    rw [emplace_of_find_none hfree, values, entries_assign_fresh hfree, hentries]
    rfl
  rw [state_body_one hvalues]
  rfl

/-- Where the first checkpoint is published, `2 ^ 32` references can be chosen such that the saved
file begins with the file of the checkpoint without references. -/
theorem wrapped_references_saved (env : Env) {s : System W} {d : CheckpointDescriptor}
    {underlay : IBackend W} (hadmitted : Admitted s d underlay)
    (hempty : s.store.checkpoints.size = 0) {small : Bytes}
    (hsmall : stateBody env.period
      (publishedStore env { d with references := [] } [] (.start s)) = small)
    (hshort : small.length ≤ 2 ^ 31) :
    ∃ references : List CheckpointId, references.length = 2 ^ 32 ∧ ∃ raw,
      (callAll env s [.publish { d with references := references } [], .saveState {}]).files.find
        s.store.options.statePath = some raw ∧
      stateFrame env.hash small <+: raw ∧ stateFrame env.hash small ≠ raw := by
  obtain ⟨front, back, hbody⟩ := state_body_references env hempty d
  rw [hbody] at hsmall
  subst hsmall
  have hback : back.length ≤ 2 ^ 31 := by
    rw [List.length_append, List.length_append] at hshort
    omega
  obtain ⟨references, hreferences, hprefix⟩ := frame_prefix_of_wrapped_count env.hash hback
  refine ⟨references, hreferences, _, ?_, hprefix, fun heq => ?_⟩
  · have hadmitted' : Admitted s { d with references := references } underlay :=
      ⟨hadmitted.boot, hadmitted.fresh, hadmitted.generation, hadmitted.chunkSize, hadmitted.kind,
        hadmitted.backend⟩
    have hstore := final_state_publish_empty env hadmitted'
    rw [callAll, List.foldl_cons]
    generalize finalState ((Op.publish { d with references := references } []).run env s) = s₁
      at hstore
    have hfile := saved_file (save_state_returns env s₁)
    rw [hstore, hbody] at hfile
    exact hfile
  · have hlength := congrArg List.length heq
    rw [frame_length, frame_length] at hlength
    simp only [List.length_append, BinWriter.list, BinWriter.count, BinWriter.u32, put_le_length,
      List.flatMap_nil, List.length_nil, ids_length] at hlength
    omega

/-- A store with a checkpoint that has `2 ^ 32` references is saved as a file whose prefix is the
file of a store without the references, and loads as such. -/
theorem prefix_of_saved_file_loads :
    ∃ references : List CheckpointId, references.length = 2 ^ 32 ∧ ∃ raw v,
      (sampleRun sha256Hash [] [.createFamily,
        .publish { sampleDescriptor 7 1 0 with references := references } [],
        .saveState {}]).files.find [] = some raw ∧
      v <+: raw ∧ v ≠ raw ∧
      ∃ s', loadState (sampleEnv sha256Hash)
        { sampleSystem sha256Hash [] with files := assign [] v ∅ } = .ok () s' := by
  have hcreated : let s := sampleRun sha256Hash [] [.createFamily]
      (sampleDescriptor 7 1 0).producerBoot = s.store.options.bootId ∧
        s.store.checkpoints.size = 0 ∧
        s.store.nextCheckpointGeneration.find ⟨1⟩ = some ⟨1⟩ ∧
        validChunkSize s.store.options.chunkSize = true ∧
        (s.store.backends.find s.store.primaryBackendId).isSome ∧
        s.store.options.statePath = [] := by
    decide +kernel
  have hrecoverable : Recoverable (sampleEnv sha256Hash).period
      (sampleRun sha256Hash [] savedOps).store := by
    decide +kernel
  have hkeyed : WellKeyed (sampleRun sha256Hash [] savedOps).store :=
    well_keyed_run (well_keyed_create _ _) (run_calls (sampleEnv sha256Hash) Anything
      (sampleSystem sha256Hash []) savedOps)
  obtain ⟨hboot, hempty, hgeneration, hvalid, hbackend, hpath⟩ := hcreated
  obtain ⟨underlay, hunderlay⟩ := Option.isSome_iff_exists.mp hbackend
  have hadmitted : Admitted (sampleRun sha256Hash [] [.createFamily]) (sampleDescriptor 7 1 0)
      underlay :=
    ⟨hboot, find_eq_none_of_size hempty _, hgeneration, hvalid, Or.inl rfl, hunderlay⟩
  have hcalls : ∀ ops, sampleRun sha256Hash [] (.createFamily :: ops) =
      callAll (sampleEnv sha256Hash) (sampleRun sha256Hash [] [.createFamily]) ops :=
    call_all_append _ _ [.createFamily]
  have hstore : (sampleRun sha256Hash [] savedOps).store = publishedStore (sampleEnv sha256Hash)
      (sampleDescriptor 7 1 0) [] (.start (sampleRun sha256Hash [] [.createFamily])) := by
    rw [savedOps, hcalls, call_all_singleton]
    exact final_state_publish_empty (sampleEnv sha256Hash) hadmitted
  obtain ⟨references, hreferences, raw, hraw, hprefix, hne⟩ := wrapped_references_saved
    (sampleEnv sha256Hash) hadmitted hempty
    (congrArg (stateBody (sampleEnv sha256Hash).period) hstore.symm) hrecoverable.2
  rw [hpath, ← hcalls] at hraw
  refine ⟨references, hreferences, raw, _, hraw, hprefix, hne, ?_⟩
  generalize (sampleRun sha256Hash [] savedOps).store = saved at hkeyed hrecoverable
  refine (load_saved_returns (sampleEnv sha256Hash) hkeyed hrecoverable (fun _ => rfl) ?_).imp
    fun _ hload => hload.1
  exact (find_assign _ _ _ _).trans (if_pos rfl)

end CheckpointStore
