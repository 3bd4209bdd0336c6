import CheckpointStore.Persistence.Recovery

/-!
# Loading the state file

What `load_state` does with a file that `save_state` wrote, from the frame to the loaded store.
`read_body_ok_iff` says that the frames it accepts are the frames `save_state` writes, and
`post_load_state` that a store with an empty dedup table loads the file exactly when the saved store
was `Recoverable`. `recovered_reproduces` says that the loaded store then has
everything the file holds of the saved one (`Reproduces`), and `state_body_reproduced` that such
a store is saved as the same bytes.
-/

namespace CheckpointStore

open Foundation Foundation.Procedure Foundation.Decoding Foundation.UnorderedMap

variable {W α : Type}

/-! ## The frame -/

/-- The reader consumes this many bytes, or throws. -/
def Advances (m : Proc BinReader α) (n : Nat) : Prop :=
  ∀ r, Post m r (fun _ r' => r.rest.length = n + r'.rest.length) (fun _ _ => True)

/-- The rest is what remains. -/
theorem rest_length (r : BinReader) : r.rest.length = r.remaining := by
  simp [BinReader.rest, BinReader.remaining]

/-- A number moves the reader by its width. -/
theorem advances_word (width : Nat) : Advances (BinReader.word width) width := by
  intro r
  cases hget : BinReader.getLe r.view r.pos width with
  | error e =>
      exact post_of_runs (fun a r' h => by simp [BinReader.word, hget] at h) fun _ _ _ => trivial
  | ok v =>
      have hlong : r.pos + width ≤ r.view.length := by
        unfold BinReader.getLe at hget
        split at hget
        · simp at hget
        · omega
      have hrun : BinReader.word width r = .ok v { r with pos := r.pos + width } := by
        simp [BinReader.word, hget]
      refine post_of_runs (fun a r' h => ?_) fun _ _ _ => trivial
      rw [hrun] at h
      cases h
      simp only [BinReader.rest, List.length_drop]
      omega

/-- A block moves the reader by its length. -/
theorem advances_bytes_fixed (n : Nat) : Advances (BinReader.bytesFixed n) n := by
  intro r
  refine post_of_runs (fun a r' h => ?_) fun _ _ _ => trivial
  unfold BinReader.bytesFixed at h
  split at h
  · simp at h
  · next hlong =>
      cases h
      simp only [BinReader.remaining] at hlong
      simp only [BinReader.rest, List.length_drop]
      omega

theorem advances_u32 : Advances BinReader.u32 4 := fun r => by
  rw [BinReader.u32, post_bind]
  exact advances_word 4 r

theorem advances_sha256 : Advances BinReader.sha256 32 := fun r => by
  rw [BinReader.sha256, post_bind]
  exact advances_bytes_fixed 32 r

/-- What the reader has consumed is what the writer writes for the value. -/
def Exact (m : Proc BinReader α) (write : α → Bytes) : Prop :=
  ∀ r, Post m r (fun a r' => r.rest = write a ++ r'.rest) (fun _ _ => True)

/-- A reader of `n` bytes that reads back what is written is exact, if every string of `n` bytes
is written for some value. -/
theorem exact_of_decodes {m : Proc BinReader α} {n : Nat} {write : α → Bytes} (hn : n < 2 ^ 32)
    (hadvances : Advances m n)
    (hwritten : ∀ bs : Bytes, bs.length = n → ∃ a, write a = bs ∧ Decodes m bs True a) :
    Exact m write := by
  intro r
  refine post_of_runs (fun a r' hrun => ?_) fun _ _ _ => trivial
  have hlength : r.rest.length = n + r'.rest.length := (hadvances r).of_ok hrun
  have htaken : (r.rest.take n).length = n := by
    rw [List.length_take]
    omega
  obtain ⟨a', hwrite, hdecodes⟩ := hwritten _ htaken
  obtain ⟨_, hrest, rfl⟩ := (hdecodes r (r.rest.drop n) trivial
    (List.take_append_drop n r.rest).symm (by omega)).of_ok hrun
  rw [hwrite, hrest, List.take_append_drop]

/-- Only one encoding is read as a given number. -/
theorem exact_u32 : Exact BinReader.u32 BinWriter.u32 := by
  refine exact_of_decodes (by decide) advances_u32 fun bs hlength => ?_
  obtain ⟨v, hv, hput⟩ := put_le_surjective bs (by omega)
  rw [hlength] at hv hput
  have hnarrow : v.toUInt32.toUInt64 = v := by
    rw [← UInt64.toNat_inj, UInt32.toNat_toUInt64, UInt64.toNat_toUInt32]
    exact Nat.mod_eq_of_lt hv
  have hwrite : BinWriter.u32 v.toUInt32 = bs := by
    rw [BinWriter.u32, hnarrow]
    exact hput
  exact ⟨v.toUInt32, hwrite, hwrite ▸ decodes_u32 _⟩

/-- Only one encoding is read as a given digest. -/
theorem exact_sha256 : Exact BinReader.sha256 BinWriter.sha256 := by
  refine exact_of_decodes (by decide) advances_sha256 fun bs hlength => ?_
  exact ⟨⟨bs, hlength⟩, rfl, decodes_sha256 ⟨bs, hlength⟩⟩

theorem exact_bytes_fixed {n : Nat} (hn : n < 2 ^ 32) :
    Exact (BinReader.bytesFixed n) BinWriter.bytesFixed :=
  exact_of_decodes hn (advances_bytes_fixed n) fun bs hlength =>
    ⟨bs, rfl, decodes_bytes_fixed hlength⟩

/-- A reader of a fixed number of bytes returns that many. -/
theorem bytes_fixed_length (n : Nat) (r : BinReader) :
    Post (BinReader.bytesFixed n) r (fun bs _ => bs.length = n) (fun _ _ => True) := by
  refine post_of_runs (fun bs r' hrun => ?_) fun _ _ _ => trivial
  unfold BinReader.bytesFixed at hrun
  split at hrun
  · cases hrun
  · next hlong =>
      cases hrun
      rw [BinReader.remaining] at hlong
      rw [List.length_take, List.length_drop]
      omega

/-- A frame that is opened is the frame of the body. -/
theorem open_frame_exact (H : StreamHash) (r : BinReader) :
    Post (openFrame H) r
      (fun body _ => r.rest = stateFrame H body ∧ body.length ≤ 2 ^ 31) (fun _ _ => True) := by
  unfold openFrame
  rw [post_bind]
  refine (exact_bytes_fixed (by decide) r).mono (fun magic r₁ h₁ => ?_) fun _ _ h => h
  rw [post_ite]
  refine ⟨fun _ => trivial, fun hmagic => ?_⟩
  rw [post_bind]
  refine (exact_u32 r₁).mono (fun version r₂ h₂ => ?_) fun _ _ h => h
  rw [post_ite]
  refine ⟨fun _ => trivial, fun hversion => ?_⟩
  rw [post_bind]
  refine (exact_u32 r₂).mono (fun bodyLen r₃ h₃ => ?_) fun _ _ h => h
  rw [post_ite]
  refine ⟨fun _ => trivial, fun hshort => ?_⟩
  have hbound : bodyLen.toNat ≤ 2 ^ 31 := UInt32.le_iff_toNat_le.mp (UInt32.not_lt.mp hshort)
  rw [post_bind]
  refine ((exact_bytes_fixed (by omega) r₃).and (bytes_fixed_length _ r₃)).mono
    (fun body r₄ h₄ => ?_) fun _ _ h => h.1
  obtain ⟨h₄, hlength⟩ := h₄
  rw [post_bind]
  refine (exact_u32 r₄).mono (fun storedCrc r₅ h₅ => ?_) fun _ _ h => h
  rw [post_bind]
  refine (exact_sha256 r₅).mono (fun storedDigest r₆ h₆ => ?_) fun _ _ h => h
  rw [post_bind, post_get, post_ite]
  refine ⟨fun _ => trivial, fun hend => ?_⟩
  have hrest : r₆.rest = [] := by
    rw [← List.length_eq_zero_iff, rest_length]
    exact not_not.mp hend
  simp only [post_ite, post_throw_store_error, post_pure]
  refine ⟨fun _ => trivial, fun hcrc => ⟨fun _ => trivial, fun hdigest => ⟨?_, by omega⟩⟩⟩
  rw [h₁, h₂, h₃, h₄, h₅, h₆, hrest, not_not.mp hmagic, not_not.mp hversion, ← not_not.mp hcrc,
    ← not_not.mp hdigest]
  simp only [stateFrame, BinWriter.count, hlength, UInt32.ofNat_toNat, List.append_assoc,
    List.append_nil]

/-- A frame has 48 bytes around its body. -/
theorem frame_length (H : StreamHash) (body : Bytes) :
    (stateFrame H body).length = 48 + body.length := by
  have hdigest := (H.sha256 body).length_eq
  simp only [stateFrame, BinWriter.bytesFixed, BinWriter.u32, BinWriter.count, BinWriter.sha256,
    List.length_append, put_le_length, hdigest, frameMagic, ascii]
  simp only [List.length_map, List.length_cons, List.length_nil]
  omega

/-- The frame around a body that is not too long is opened again. -/
theorem post_open_frame (H : StreamHash) {body : Bytes} (hshort : body.length ≤ 2 ^ 31) :
    Post (openFrame H) { view := stateFrame H body } (fun body' _ => body' = body)
      (fun _ _ => False) := by
  have hcount : (UInt32.ofNat body.length).toNat = body.length := by
    rw [UInt32.toNat_ofNat', Nat.mod_eq_of_lt (by omega)]
  have hrest : (BinReader.mk (stateFrame H body) 0).rest =
      frameMagic ++ (BinWriter.u32 formatVersion ++ (BinWriter.u32 (UInt32.ofNat body.length) ++
        (body ++ (BinWriter.u32 (crc32 body) ++ (BinWriter.sha256 (H.sha256 body) ++ []))))) := by
    simp [BinReader.rest, stateFrame, BinWriter.bytesFixed, BinWriter.count]
  unfold openFrame
  rw [post_bind]
  refine (decodes_bytes_fixed (n := 4) rfl _ _ trivial hrest (by decide)).mono
    (fun _ r₁ h₁ => ?_) fun _ _ h => h.1 trivial
  obtain ⟨_, hrest₁, rfl⟩ := h₁
  rw [post_ite]
  refine ⟨fun hne => absurd rfl hne, fun _ => ?_⟩
  rw [post_bind]
  refine (decodes_u32 _ _ _ trivial hrest₁ (by decide)).mono (fun _ r₂ h₂ => ?_)
    fun _ _ h => h.1 trivial
  obtain ⟨_, hrest₂, rfl⟩ := h₂
  rw [post_ite]
  refine ⟨fun hne => absurd rfl hne, fun _ => ?_⟩
  rw [post_bind]
  refine (decodes_u32 _ _ _ trivial hrest₂ (by rw [BinWriter.u32, put_le_length]; decide)).mono
    (fun _ r₃ h₃ => ?_) fun _ _ h => h.1 trivial
  obtain ⟨_, hrest₃, rfl⟩ := h₃
  rw [post_ite]
  refine ⟨fun hlong => ?_, fun _ => ?_⟩
  · have hlt := UInt32.lt_iff_toNat_lt.mp hlong
    rw [hcount] at hlt
    exact absurd (show 2 ^ 31 < body.length from hlt) (by omega)
  rw [post_bind]
  refine (decodes_bytes_fixed hcount.symm _ _ trivial hrest₃ (by omega)).mono
    (fun _ r₄ h₄ => ?_) fun _ _ h => h.1 trivial
  obtain ⟨_, hrest₄, rfl⟩ := h₄
  rw [post_bind]
  refine (decodes_u32 _ _ _ trivial hrest₄ (by rw [BinWriter.u32, put_le_length]; decide)).mono
    (fun _ r₅ h₅ => ?_) fun _ _ h => h.1 trivial
  obtain ⟨_, hrest₅, rfl⟩ := h₅
  rw [post_bind]
  refine (decodes_sha256 _ _ _ trivial hrest₅
    (by rw [BinWriter.sha256, Digest.length_eq]; decide)).mono (fun _ r₆ h₆ => ?_)
    fun _ _ h => h.1 trivial
  obtain ⟨_, hrest₆, rfl⟩ := h₆
  have hend : r₆.remaining = 0 := by rw [← rest_length, hrest₆, List.length_nil]
  simp [hend]

/-- The body of a frame is read back. -/
theorem read_body_frame (H : StreamHash) {body : Bytes} (hshort : body.length ≤ 2 ^ 31) :
    readBody H (stateFrame H body) = .ok body := by
  have hlength := frame_length H body
  unfold readBody
  rw [if_neg (by omega)]
  have hpost := post_open_frame H hshort
  cases hrun : openFrame H { view := stateFrame H body } with
  | ok body' r' =>
      have hbody : body' = body := hpost.of_ok hrun
      rw [hbody]
  | error e r' => exact (hpost.of_error hrun).elim

/-- `load_state` accepts the frames that `save_state` writes, with bodies up to the bound, and
nothing else. -/
theorem read_body_ok_iff {H : StreamHash} {raw body : Bytes} :
    readBody H raw = .ok body ↔ raw = stateFrame H body ∧ body.length ≤ 2 ^ 31 := by
  constructor
  · intro hread
    unfold readBody at hread
    split at hread
    · cases hread
    · cases hrun : openFrame H { view := raw } with
      | ok body' r' =>
          rw [hrun] at hread
          cases hread
          exact (open_frame_exact H { view := raw }).of_ok hrun
      | error e r' =>
          rw [hrun] at hread
          cases hread
  · rintro ⟨rfl, hshort⟩
    exact read_body_frame H hshort

/-- A body that is too long is refused. -/
theorem read_body_frame_too_long (H : StreamHash) {body : Bytes} (hlong : 2 ^ 31 < body.length) :
    ∃ e, readBody H (stateFrame H body) = .error e := by
  cases hread : readBody H (stateFrame H body) with
  | error e => exact ⟨e, rfl⟩
  | ok body' =>
      obtain ⟨hframe, hshort⟩ := read_body_ok_iff.mp hread
      have hlengths := congrArg List.length hframe
      rw [frame_length, frame_length] at hlengths
      omega

/-! ## The whole file -/

/-- What makes a saved store loadable: no list is too long, and neither is the body. -/
def Recoverable (period : ClockPeriod) (saved : Store W) : Prop :=
  saved.Fits ∧ (stateBody period saved).length ≤ 2 ^ 31

-- The bounds can be computed, so that a concrete store can be checked against them.
instance (r : CheckpointRecord) : Decidable r.Fits := by
  unfold CheckpointRecord.Fits CheckpointDescriptor.Fits CheckpointManifest.Fits ReplicaSet.Fits
    ChunkDescriptor.Fits
  infer_instance

instance (b : BlobDescriptor) : Decidable b.Fits := inferInstanceAs (Decidable (_ ≤ _))

instance (f : FamilyRecord) : Decidable f.Fits := inferInstanceAs (Decidable (_ ≤ _))

/-- All values found are all values listed. -/
theorem forall_find_iff {K V : Type} [DecidableEq K] {m : UnorderedMap K V} {ok : V → Prop} :
    (∀ k v, m.find k = some v → ok v) ↔ ∀ v ∈ m.values, ok v := by
  refine ⟨fun h v hv => ?_, fun h k v hfind => h v (mem_values.mpr ⟨k, hfind⟩)⟩
  obtain ⟨k, hfind⟩ := mem_values.mp hv
  exact h k v hfind

/-- The bounds, in terms of the values of the tables. -/
theorem Store.fits_iff (store : Store W) : store.Fits ↔
    (store.families.size ≤ BinReader.maxRecords ∧ ∀ f ∈ store.families.values, f.Fits) ∧
      (store.checkpoints.size ≤ BinReader.maxRecords ∧ ∀ r ∈ store.checkpoints.values, r.Fits) ∧
      (store.blobs.size ≤ BinReader.maxRecords ∧ ∀ b ∈ store.blobs.values, b.Fits) ∧
      store.replicas.size ≤ BinReader.maxRecords ∧ store.placements.size ≤ BinReader.maxRecords ∧
      store.retention.size ≤ BinReader.maxRecords ∧ store.dedup.size ≤ BinReader.maxRecords := by
  simp only [← forall_find_iff]
  constructor
  · intro h
    exact ⟨h.families, h.checkpoints, h.blobs, h.replicas, h.placements, h.retention, h.dedup⟩
  · rintro ⟨hfamilies, hcheckpoints, hblobs, hreplicas, hplacements, hretention, hdedup⟩
    exact ⟨hfamilies, hcheckpoints, hblobs, hreplicas, hplacements, hretention, hdedup⟩

instance (store : Store W) : Decidable store.Fits := decidable_of_iff _ store.fits_iff.symm

instance (period : ClockPeriod) (store : Store W) : Decidable (Recoverable period store) :=
  inferInstanceAs (Decidable (_ ∧ _))

/-- Loading the body of a saved store. -/
theorem post_load_body (period : ClockPeriod) {saved store : Store W} (hkeyed : WellKeyed saved)
    (hdedup : ∀ d, store.dedup.entries.find d = none)
    (hshort : (stateBody period saved).length ≤ 2 ^ 31) :
    Post (loadBody period) { reader := { view := stateBody period saved }, store := store }
      (fun _ ld => saved.Fits ∧ ld.store = recomputeCounters (recovered period saved store))
      (fun _ ld => ¬ saved.Fits ∧ HoldsSaved period saved ld.store) := by
  have htables := loads_tables period hkeyed hdedup
  generalize stateBody period saved = body at htables hshort ⊢
  unfold loadBody
  rw [post_bind]
  refine (htables { reader := { view := body }, store := store } [] rfl
    (by simp [BinReader.rest]) (by omega)).mono (fun _ ld h => ?_) fun _ _ h => h
  obtain ⟨hfits, hrest, hstore⟩ := h
  have hend : ld.reader.remaining = 0 := by
    rw [← rest_length, show ld.reader.rest = [] from hrest, List.length_nil]
  rw [post_bind, post_get, if_neg (not_not.mpr hend)]
  exact ⟨hfits, congrArg recomputeCounters hstore⟩

/-- Loading a body changes the store only. -/
theorem post_on_body {body : Bytes} {m : Proc (Loading W) Unit} {s : System W}
    {Q E : Store W → Prop}
    (h : Post m { reader := { view := body }, store := s.store } (fun _ ld => Q ld.store)
      (fun _ ld => E ld.store)) :
    Post (onBody body m) s (fun _ s' => ∃ store, s' = { s with store := store } ∧ Q store)
      (fun _ s' => ∃ store, s' = { s with store := store } ∧ E store) := by
  unfold Post onBody at *
  cases hrun : m { reader := { view := body }, store := s.store } with
  | ok a ld =>
      rw [hrun] at h
      exact ⟨ld.store, rfl, h⟩
  | error e ld =>
      rw [hrun] at h
      exact ⟨ld.store, rfl, h⟩

/-- A store without dedup entries loads a saved file exactly when it is recoverable. When the load
throws, the records it leaves behind are saved ones, or nothing was touched. -/
theorem post_load_state (env : Env) {s : System W} {saved : Store W} (hkeyed : WellKeyed saved)
    (hdedup : ∀ d, s.store.dedup.entries.find d = none)
    (hfile : s.files.find s.store.options.statePath =
      some (stateFrame env.hash (stateBody env.period saved))) :
    Post (loadState env) s
      (fun _ s' => Recoverable env.period saved ∧
        s' = { s with store := recomputeCounters (recovered env.period saved s.store) })
      (fun _ s' => ¬ Recoverable env.period saved ∧ ∃ store, s' = { s with store := store } ∧
        (store = s.store ∨ HoldsSaved env.period saved store)) := by
  unfold loadState readFile
  simp only [post_bind, post_get, hfile, post_pure, post_from_except]
  refine ⟨fun body hbody => ?_, fun e he => ?_⟩
  · have hshort : (stateBody env.period saved).length ≤ 2 ^ 31 := by
      by_contra hlong
      obtain ⟨e, he⟩ := read_body_frame_too_long env.hash (Nat.lt_of_not_le hlong)
      rw [he] at hbody
      simp at hbody
    rw [read_body_frame env.hash hshort, Except.ok.injEq] at hbody
    rw [← hbody]
    refine (post_on_body
      (Q := fun store => saved.Fits ∧ store =
        recomputeCounters (recovered env.period saved s.store))
      (E := fun store => ¬ saved.Fits ∧ HoldsSaved env.period saved store)
      (post_load_body env.period hkeyed hdedup hshort)).mono
      (fun _ s' hs' => ?_) (fun _ s' hs' => ?_)
    · obtain ⟨store, rfl, hfits, hstore⟩ := hs'
      exact ⟨⟨hfits, hshort⟩, by rw [hstore]⟩
    · obtain ⟨store, rfl, hfits, hholds⟩ := hs'
      exact ⟨fun h => hfits h.1, store, rfl, .inr hholds⟩
  · refine ⟨fun h => ?_, s.store, rfl, .inl rfl⟩
    rw [read_body_frame env.hash h.2] at he
    simp at he

/-! ## The loaded store -/

/-- The counters that are saved. -/
def AccountingSnapshot.persisted (c : AccountingSnapshot) : AccountingSnapshot where
  integrityFailures := c.integrityFailures
  staleRejections := c.staleRejections
  duplicateRejections := c.duplicateRejections
  workerRestarts := c.workerRestarts
  reclaimedBlobs := c.reclaimedBlobs
  reclaimedBytes := c.reclaimedBytes
  restoredBytes := c.restoredBytes

/-- The part of the garbage-collection state that is saved. -/
def GcState.persisted (gc : GcState) : GcState where
  epoch := gc.epoch
  generation := gc.generation
  phase := gc.phase
  markedBytes := gc.markedBytes
  reclaimedBytes := gc.reclaimedBytes

/-- The store has everything that the file of the saved store holds. Creation times are in whole
milliseconds. -/
structure Reproduces (period : ClockPeriod) (saved store : Store W) : Prop where
  coordinatorEpoch : store.coordinatorEpoch = saved.coordinatorEpoch
  bootId : store.options.bootId = saved.options.bootId
  nextIdCounter : store.nextIdCounter = saved.nextIdCounter
  counters : store.counters.persisted = saved.counters.persisted
  families : ∀ id, store.families.find id = saved.families.find id
  checkpoints : ∀ id, store.checkpoints.find id =
    (saved.checkpoints.find id).map (CheckpointRecord.truncated period)
  blobs : ∀ id, store.blobs.find id = saved.blobs.find id
  replicas : ∀ id, store.replicas.find id = saved.replicas.find id
  placements : ∀ id, store.placements.find id = saved.placements.find id
  retention : ∀ id, store.retention.find id = saved.retention.find id
  gc : store.gc.persisted = saved.gc.persisted
  dedup : ∀ d, store.dedup.find d = saved.dedup.find d

section Rebuilt

variable {K V : Type} [DecidableEq K] {key : V → K} {m : UnorderedMap K V}

/-- Filing the sorted values of a table gives the table back. -/
theorem find_filed (sortKey : V → UInt64) (hkey : ∀ k v, m.find k = some v → key v = k) (k : K) :
    (fileAll key (sortedByKey sortKey m) ∅).find k = m.find k := by
  have hperm : (sortedByKey sortKey m).Perm (m.values.map fun v => v) := by
    rw [List.map_id']
    exact sorted_perm sortKey m
  rw [find_file_all hkey (fun _ => rfl) hperm, Option.map_id']

/-- The rebuilt table finds what the saved one finds. -/
theorem find_rebuilt_dedup {saved : Store W} {t : DedupTable}
    (hkey : ∀ d e, saved.dedup.entries.find d = some e → e.digest = d)
    (hempty : ∀ d, t.entries.find d = none) (d : Digest) :
    (rebuiltDedup saved t).find d = saved.dedup.find d := by
  have henters : EntersIn (fun t : DedupTable => t.entries) (fun e => e.digest)
      (fun e t => t.insertBlobEntryDirect e) :=
    fun e t _ d => DedupTable.find_insert_blob_entry_direct t e d
  have hperm : ((sortedDedup saved.dedup).map refiled).Perm
      (saved.dedup.entries.values.map fun e => e) := by
    refine ((List.perm_insertionSort _ _).map refiled).trans (List.Perm.of_eq ?_)
    rw [List.map_id', UnorderedMap.values]
    refine List.map_congr_left fun entry hentry => ?_
    have hdigest : entry.2.digest = entry.1 := hkey _ _ (find_eq_some_iff.mpr hentry)
    rw [refiled, ← hdigest]
  have hfind := find_enter_all henters hkey (fun _ => rfl) hperm hempty d
  rw [Option.map_id'] at hfind
  exact hfind

end Rebuilt

/-- The loaded store has everything that the file holds. -/
theorem recovered_reproduces (period : ClockPeriod) {saved store : Store W}
    (hkeyed : WellKeyed saved) (hdedup : ∀ d, store.dedup.entries.find d = none) :
    Reproduces period saved (recomputeCounters (recovered period saved store)) where
  coordinatorEpoch := rfl
  bootId := rfl
  nextIdCounter := rfl
  counters := rfl
  families := find_filed _ hkeyed.families
  checkpoints := find_file_all hkeyed.checkpoints (fun _ => rfl) ((sorted_perm _ _).map _)
  blobs := find_filed _ hkeyed.blobs
  replicas := find_filed _ hkeyed.replicas
  placements := find_filed _ hkeyed.placements
  retention := find_filed _ hkeyed.retention
  gc := rfl
  dedup := find_rebuilt_dedup hkeyed.dedup hdedup

/-- A store that reproduces a well-keyed one is well keyed. -/
theorem Reproduces.well_keyed {period : ClockPeriod} {saved store : Store W}
    (h : Reproduces period saved store) (hkeyed : WellKeyed saved) : WellKeyed store where
  families id f hf := hkeyed.families id f ((h.families id).symm.trans hf)
  checkpoints id rec hrec := by
    rw [h.checkpoints, Option.map_eq_some_iff] at hrec
    obtain ⟨rec', hrec', rfl⟩ := hrec
    exact hkeyed.checkpoints id rec' hrec'
  blobs id b hb := hkeyed.blobs id b ((h.blobs id).symm.trans hb)
  replicas id r hr := hkeyed.replicas id r ((h.replicas id).symm.trans hr)
  placements id p hp := hkeyed.placements id p ((h.placements id).symm.trans hp)
  retention id p hp := hkeyed.retention id p ((h.retention id).symm.trans hp)
  dedup d e he := hkeyed.dedup d e ((h.dedup d).symm.trans he)

/-! ## Saving it again -/

section Sorted

variable {K V : Type}

/-- Sorted values ascend. -/
theorem sorted_pairwise (sortKey : V → UInt64) (m : UnorderedMap K V) :
    (sortedByKey sortKey m).Pairwise fun a b => sortKey a ≤ sortKey b := by
  have : Std.Total fun a b : V => sortKey a ≤ sortKey b := ⟨fun a b => UInt64.le_total _ _⟩
  have : IsTrans V fun a b : V => sortKey a ≤ sortKey b := ⟨fun a b c => UInt64.le_trans⟩
  exact List.pairwise_insertionSort _ _

variable [DecidableEq K] {key : V → K} {m m' : UnorderedMap K V} {f : V → V}

/-- The sorted values of a table depend on its lookups only. -/
theorem sorted_of_find_eq {sortKey : V → UInt64}
    (hkey : ∀ k v, m.find k = some v → key v = k)
    (hsort : ∀ v w, sortKey v = sortKey w → key v = key w)
    (hf : ∀ v, key (f v) = key v) (hsortf : ∀ v, sortKey (f v) = sortKey v)
    (hfind : ∀ k, m'.find k = (m.find k).map f) :
    sortedByKey sortKey m' = (sortedByKey sortKey m).map f := by
  have hreordered : Reordered m' (m.mapValues fun _ => f) :=
    reordered_of_find_eq fun k => by rw [hfind, find_map_values]
  have hvalues : m'.values.Perm (m.values.map f) := by
    have hperm := hreordered.values_perm
    rwa [show (m.mapValues fun _ => f).values = m.values.map f by
      simp [UnorderedMap.values]] at hperm
  have hkey' : ∀ k v, m'.find k = some v → key v = k := by
    intro k v hv
    rw [hfind, Option.map_eq_some_iff] at hv
    obtain ⟨v', hv', rfl⟩ := hv
    rw [hf, hkey k v' hv']
  have hperm : (sortedByKey sortKey m').Perm ((sortedByKey sortKey m).map f) :=
    (sorted_perm sortKey m').trans (hvalues.trans ((sorted_perm sortKey m).map f).symm)
  refine hperm.eq_of_pairwise (fun a b ha hb hab hba => ?_) (sorted_pairwise sortKey m') ?_
  · obtain ⟨k, hka⟩ := mem_values.mp ((sorted_perm sortKey m').mem_iff.mp ha)
    obtain ⟨k', hkb⟩ := mem_values.mp
      ((sorted_perm sortKey m').mem_iff.mp (hperm.mem_iff.mpr hb))
    have hk : k = k' := by
      rw [← hkey' k a hka, ← hkey' k' b hkb]
      exact hsort a b (UInt64.le_antisymm hab hba)
    rw [hk, hkb, Option.some.injEq] at hka
    exact hka.symm
  · rw [List.pairwise_map]
    refine (sorted_pairwise sortKey m).imp fun {a b} hab => ?_
    rwa [hsortf, hsortf]

end Sorted

/-- Two byte strings of which neither is less are equal. -/
theorem eq_of_not_bytes_less {a b : Bytes} (hab : bytesLess a b = false)
    (hba : bytesLess b a = false) : a = b := by
  induction a generalizing b with
  | nil =>
      cases b with
      | nil => rfl
      | cons y ys => simp [bytesLess] at hab
  | cons x xs ih =>
      cases b with
      | nil => simp [bytesLess] at hba
      | cons y ys =>
          simp only [bytesLess, Bool.or_eq_false_iff, decide_eq_false_iff_not,
            Bool.and_eq_false_iff,
            beq_eq_false_iff_ne] at hab hba
          have hxy : x = y := UInt8.le_antisymm (UInt8.not_lt.mp hba.1) (UInt8.not_lt.mp hab.1)
          subst hxy
          rw [ih (hab.2.resolve_left fun h => h rfl) (hba.2.resolve_left fun h => h rfl)]

/-- What is less than something not greater is less. -/
theorem bytes_less_of_not_less {a b c : Bytes} (hcb : bytesLess c b = false)
    (hca : bytesLess c a = true) : bytesLess b a = true := by
  induction a generalizing b c with
  | nil =>
      cases c with
      | nil => simp [bytesLess] at hca
      | cons z zs => simp [bytesLess] at hca
  | cons x xs ih =>
      cases b with
      | nil => rfl
      | cons y ys =>
          cases c with
          | nil => simp [bytesLess] at hcb
          | cons z zs =>
              simp only [bytesLess, Bool.or_eq_false_iff, decide_eq_false_iff_not,
                Bool.and_eq_false_iff, beq_eq_false_iff_ne, Bool.or_eq_true, decide_eq_true_eq,
                Bool.and_eq_true, beq_iff_eq] at hcb hca ⊢
              have hyz := UInt8.not_lt.mp hcb.1
              rcases hca with hzx | ⟨rfl, hrest⟩
              · exact .inl (UInt8.lt_of_le_of_lt hyz hzx)
              · by_cases hy : y = z
                · subst hy
                  exact .inr ⟨rfl, ih (hcb.2.resolve_left fun h => h rfl) hrest⟩
                · exact .inl (UInt8.lt_of_le_of_ne hyz hy)

/-- No two byte strings are less than each other. -/
theorem bytes_less_asymm {a b : Bytes} (hab : bytesLess a b = true) : bytesLess b a = false := by
  by_contra hba
  rw [Bool.not_eq_false] at hba
  induction a generalizing b with
  | nil => cases b <;> simp [bytesLess] at hab hba
  | cons x xs ih =>
      cases b with
      | nil => simp [bytesLess] at hab
      | cons y ys =>
          simp only [bytesLess, Bool.or_eq_true, decide_eq_true_eq, Bool.and_eq_true,
            beq_iff_eq] at hab hba
          rcases hab with hxy | ⟨rfl, hrest⟩
          · rcases hba with hyx | ⟨rfl, _⟩
            · exact UInt8.lt_asymm hxy hyx
            · exact UInt8.lt_irrefl _ hxy
          · rcases hba with hxx | ⟨_, hrest'⟩
            · exact UInt8.lt_irrefl _ hxx
            · exact ih hrest hrest'

/-- Sorted dedup entries ascend by their digests. -/
theorem sorted_dedup_pairwise (t : DedupTable) :
    (sortedDedup t).Pairwise fun a b => bytesLess (hex b.1) (hex a.1) = false := by
  have : Std.Total fun a b : Digest × DedupEntry => bytesLess (hex b.1) (hex a.1) = false := by
    refine ⟨fun a b => ?_⟩
    cases hba : bytesLess (hex b.1) (hex a.1) with
    | false => exact .inl rfl
    | true => exact .inr (bytes_less_asymm hba)
  have : IsTrans (Digest × DedupEntry) fun a b => bytesLess (hex b.1) (hex a.1) = false := by
    refine ⟨fun a b c hab hbc => ?_⟩
    by_contra hca
    rw [Bool.not_eq_false] at hca
    rw [bytes_less_of_not_less hbc hca] at hab
    simp at hab
  exact List.pairwise_insertionSort _ _

/-- The sorted entries of a dedup table depend on its lookups only. -/
theorem sorted_dedup_of_find_eq {t t' : DedupTable} (hfind : ∀ d, t'.find d = t.find d) :
    sortedDedup t' = sortedDedup t := by
  have hentries : t'.entries.entries.Perm t.entries.entries := reordered_of_find_eq hfind
  have hperm : (sortedDedup t').Perm (sortedDedup t) :=
    (List.perm_insertionSort _ _).trans (hentries.trans (List.perm_insertionSort _ _).symm)
  refine hperm.eq_of_pairwise (fun a b ha hb hab hba => ?_) (sorted_dedup_pairwise t')
    (sorted_dedup_pairwise t)
  have hdigest : a.1 = b.1 := hex_injective (eq_of_not_bytes_less hba hab)
  have hfinda : t.entries.find a.1 = some a.2 := find_eq_some_iff.mpr
    ((List.perm_insertionSort _ _).mem_iff.mp (hperm.mem_iff.mp ha))
  have hfindb : t.entries.find b.1 = some b.2 := find_eq_some_iff.mpr
    ((List.perm_insertionSort _ _).mem_iff.mp hb)
  rw [hdigest, hfindb, Option.some.injEq] at hfinda
  exact Prod.ext hdigest hfinda.symm

section Body

variable {period : ClockPeriod} {saved store : Store W}

/-- The header is saved as before. -/
theorem header_bytes_reproduced (h : Reproduces period saved store) :
    headerBytes store = headerBytes saved := by
  have hcounter : ∀ field : AccountingSnapshot → UInt64,
      (∀ c, field c.persisted = field c) → field store.counters = field saved.counters := by
    intro field hfield
    rw [← hfield store.counters, h.counters, hfield]
  unfold headerBytes
  rw [h.coordinatorEpoch, h.bootId, h.nextIdCounter,
    hcounter (fun c => c.integrityFailures) fun _ => rfl,
    hcounter (fun c => c.staleRejections) fun _ => rfl,
    hcounter (fun c => c.duplicateRejections) fun _ => rfl,
    hcounter (fun c => c.workerRestarts) fun _ => rfl,
    hcounter (fun c => c.reclaimedBlobs) fun _ => rfl,
    hcounter (fun c => c.reclaimedBytes) fun _ => rfl,
    hcounter (fun c => c.restoredBytes) fun _ => rfl]

/-- So is the state of the collector. -/
theorem gc_bytes_reproduced (h : Reproduces period saved store) :
    gcBytes store.gc = gcBytes saved.gc := by
  have hpersisted : ∀ gc : GcState, gcBytes gc.persisted = gcBytes gc := fun _ => rfl
  rw [← hpersisted store.gc, h.gc, hpersisted]

/-- A table whose values come back unchanged is saved in the same order. -/
theorem sorted_reproduced {kind : IdKind} {V : Type} {m m' : UnorderedMap (BasicId kind) V}
    {key : V → BasicId kind} (hkey : ∀ k v, m.find k = some v → key v = k)
    (hfind : ∀ k, m'.find k = m.find k) :
    sortedByKey (fun v => (key v).value) m' = sortedByKey (fun v => (key v).value) m := by
  rw [sorted_of_find_eq hkey (fun _ _ => BasicId.ext_value) (fun _ => rfl) (fun _ => rfl)
    fun k => by rw [hfind, Option.map_id'], List.map_id']

/-- So are the records. -/
theorem records_reproduced (hkeyed : WellKeyed saved) (h : Reproduces period saved store) :
    BinWriter.list (BinWriter.writeRecord period)
        (sortedByKey (fun r => r.descriptor.id.value) store.checkpoints) =
      BinWriter.list (BinWriter.writeRecord period)
        (sortedByKey (fun r => r.descriptor.id.value) saved.checkpoints) := by
  rw [sorted_of_find_eq (f := CheckpointRecord.truncated period) hkeyed.checkpoints
    (fun _ _ => BasicId.ext_value) (fun _ => rfl) (fun _ => rfl) h.checkpoints]
  unfold BinWriter.list
  simp only [List.length_map, List.flatMap_map, write_record_truncated]

/-- A store that reproduces a saved one is saved as the same bytes. -/
theorem state_body_reproduced (hkeyed : WellKeyed saved) (h : Reproduces period saved store) :
    stateBody period store = stateBody period saved := by
  unfold stateBody
  rw [header_bytes_reproduced h, gc_bytes_reproduced h, records_reproduced hkeyed h,
    sorted_reproduced hkeyed.families h.families, sorted_reproduced hkeyed.blobs h.blobs,
    sorted_reproduced hkeyed.replicas h.replicas,
    sorted_reproduced hkeyed.placements h.placements,
    sorted_reproduced hkeyed.retention h.retention, sorted_dedup_of_find_eq h.dedup]

end Body

/-! ## Loading any file -/

/-- The counters that are not saved. -/
def AccountingSnapshot.unsaved (c : AccountingSnapshot) : AccountingSnapshot :=
  { c with
    integrityFailures := 0, staleRejections := 0, duplicateRejections := 0, workerRestarts := 0
    reclaimedBlobs := 0, reclaimedBytes := 0, restoredBytes := 0 }

/-- A relation between stores that everything read from a body respects. Of the counters only
those in the file are read. -/
structure EntryFrame (R : Store W → Store W → Prop) : Prop where
  refl : ∀ st, R st st
  trans : ∀ st st' st'', R st st' → R st' st'' → R st st''
  scalars : ∀ st epoch boot counter counters gc next,
    counters.unsaved = st.counters.unsaved → R st
      { st with
        coordinatorEpoch := epoch, options := { st.options with bootId := boot }
        nextIdCounter := counter, counters := counters, gc := gc
        nextCheckpointGeneration := next }
  family : ∀ f st, R st (enterFamily f st)
  record : ∀ rec st, R st (enterRecord rec st)
  blob : ∀ b st, R st (enterBlob b st)
  replica : ∀ r st, R st (enterReplica r st)
  placement : ∀ p st, R st (enterPlacement p st)
  retention : ∀ p st, R st (enterRetention p st)
  dedup : ∀ e st, R st (enterDedup e st)

/-- A relation between stores that every elementary change during a load respects. -/
structure LoadFrame (R : Store W → Store W → Prop) : Prop extends EntryFrame R where
  reset : ∀ st, R st (resetForLoad st)
  recount : ∀ st, R st (recomputeCounters st)

/-- The relation between the stores of two states of a load. -/
def OnStore (R : Store W → Store W → Prop) (ld ld' : Loading W) : Prop := R ld.store ld'.store

section Frames

variable {R : Store W → Store W → Prop}

section Keeping

variable [Std.Refl (OnStore R)]

theorem keeps_from_body (m : Proc BinReader α) : Keeps (OnStore R) (fromBody (W := W) m) :=
  have hany : Keeps (fun _ _ => True) m := fun _ => trivial
  keeps_zoom hany fun ld _ _ => refl_of (OnStore R) ld

variable [IsTrans (Loading W) (OnStore R)]

theorem keeps_load_field {assign : α → Store W → Store W} (m : Proc BinReader α)
    (hassign : ∀ a st, R st (assign a st)) : Keeps (OnStore R) (loadField m assign) :=
  keeps_bind (keeps_from_body m) fun a => keeps_modify fun ld => hassign a ld.store

variable {read : Proc BinReader α} {taken : α → Store W → Bool} {enter : α → Store W → Store W}

/-- A loop keeps what every entry keeps. -/
theorem keeps_load_times (read : Proc BinReader α) (taken : α → Store W → Bool)
    (message : String) (henter : ∀ a st, R st (enter a st)) (n : Nat) :
    Keeps (OnStore R) (loadTimes (do
      let a ← fromBody read
      let ld ← get
      if taken a ld.store then throwStoreError .malformed message
      else loadInto (enter a)) n) := by
  induction n with
  | zero => exact keeps_pure ()
  | succ n ih =>
      refine keeps_bind (keeps_bind (keeps_from_body _) fun a => keeps_bind keeps_get fun ld =>
        keeps_ite (keeps_throw _) (keeps_modify fun ld => henter a ld.store)) fun _ => ih

theorem keeps_load_list {message : String} (henter : ∀ a st, R st (enter a st)) :
    Keeps (OnStore R) (loadList read taken message enter) :=
  keeps_bind (keeps_from_body _) fun n => keeps_load_times read taken message henter n

end Keeping

namespace EntryFrame

variable (h : EntryFrame R)

include h

theorem isRefl : Std.Refl (OnStore R) := ⟨fun ld => h.refl ld.store⟩

theorem isTrans : IsTrans (Loading W) (OnStore R) := ⟨fun _ _ _ => h.trans _ _ _⟩

/-- The header, field by field. -/
theorem keeps_load_header : Keeps (OnStore R) loadHeader := by
  have := h.isRefl
  have := h.isTrans
  have hcounters : ∀ (f : AccountingSnapshot → AccountingSnapshot),
      (∀ c, (f c).unsaved = c.unsaved) → ∀ st : Store W, R st (Store.withCounters f st) :=
    fun f hf st => h.scalars st _ _ _ _ _ _ (hf _)
  exact keeps_bind (keeps_load_field _ fun _ st => h.scalars st _ _ _ _ _ _ rfl) fun _ =>
    keeps_bind (keeps_load_field _ fun _ st => h.scalars st _ _ _ _ _ _ rfl) fun _ =>
    keeps_bind (keeps_load_field _ fun _ st => h.scalars st _ _ _ _ _ _ rfl) fun _ =>
    keeps_bind (keeps_load_field _ fun _ => hcounters _ fun _ => rfl) fun _ =>
    keeps_bind (keeps_load_field _ fun _ => hcounters _ fun _ => rfl) fun _ =>
    keeps_bind (keeps_load_field _ fun _ => hcounters _ fun _ => rfl) fun _ =>
    keeps_bind (keeps_load_field _ fun _ => hcounters _ fun _ => rfl) fun _ =>
    keeps_bind (keeps_load_field _ fun _ => hcounters _ fun _ => rfl) fun _ =>
    keeps_bind (keeps_load_field _ fun _ => hcounters _ fun _ => rfl) fun _ =>
    keeps_load_field _ fun _ => hcounters _ fun _ => rfl

/-- The collector, field by field. -/
theorem keeps_load_gc : Keeps (OnStore R) loadGc := by
  have := h.isRefl
  have := h.isTrans
  have hgc : ∀ (f : GcState → GcState) (st : Store W), R st (Store.withGc f st) :=
    fun f st => h.scalars st _ _ _ _ _ _ rfl
  exact keeps_bind (keeps_load_field _ fun _ st => hgc _ st) fun _ =>
    keeps_bind (keeps_load_field _ fun _ st => hgc _ st) fun _ =>
    keeps_bind (keeps_load_field _ fun _ st => hgc _ st) fun _ =>
    keeps_bind (keeps_load_field _ fun _ st => hgc _ st) fun _ =>
    keeps_load_field _ fun _ st => hgc _ st

/-- The tables are loaded into a store that has been reset, whether or not the load gets to their
end. -/
theorem post_load_tables (period : ClockPeriod) (ld : Loading W) :
    Post (loadTables period) ld (fun _ ld' => R (resetForLoad ld.store) ld'.store)
      (fun _ ld' => R (resetForLoad ld.store) ld'.store) := by
  have := h.isRefl
  have := h.isTrans
  have hentries : Keeps (OnStore R) (do
      loadHeader
      loadFamilies
      loadRecords period
      loadInto advanceGenerations
      loadBlobs
      loadReplicas
      loadPlacements
      loadRetention
      loadGc
      loadDedup : Proc (Loading W) Unit) :=
    keeps_bind h.keeps_load_header fun _ => keeps_bind (keeps_load_list h.family) fun _ =>
      keeps_bind (keeps_load_list h.record) fun _ =>
      keeps_bind (keeps_modify fun ld => h.scalars ld.store _ _ _ _ _ _ rfl) fun _ =>
      keeps_bind (keeps_load_list h.blob) fun _ =>
      keeps_bind (keeps_load_list h.replica) fun _ =>
      keeps_bind (keeps_load_list h.placement) fun _ =>
      keeps_bind (keeps_load_list h.retention) fun _ =>
      keeps_bind h.keeps_load_gc fun _ => keeps_load_list h.dedup
  unfold loadTables
  rw [post_bind, loadInto, post_modify]
  have hpost := keeps_iff_post.mp hentries { ld with store := resetForLoad ld.store }
  exact hpost

/-- A load that throws has not come to the point where the counters are recomputed. -/
theorem post_load_body_throws (period : ClockPeriod) (ld : Loading W) :
    Post (loadBody period) ld (fun _ _ => True)
      (fun _ ld' => R (resetForLoad ld.store) ld'.store) := by
  rw [loadBody, post_bind]
  refine (h.post_load_tables period ld).mono (fun _ ld' hld' => ?_) fun _ _ hld' => hld'
  rw [post_bind, post_get, post_ite]
  exact ⟨fun _ => hld', fun _ => trivial⟩

end EntryFrame

namespace LoadFrame

variable (h : LoadFrame R)

include h

/-- The whole load keeps what its parts keep. -/
theorem keeps_load_body (period : ClockPeriod) : Keeps (OnStore R) (loadBody (W := W) period) := by
  have := h.isRefl
  have := h.isTrans
  have htables : Keeps (OnStore R) (loadTables (W := W) period) := keeps_iff_post.mpr fun ld =>
    (h.post_load_tables period ld).mono (fun _ _ => h.trans _ _ _ (h.reset ld.store))
      (fun _ _ => h.trans _ _ _ (h.reset ld.store))
  exact keeps_bind htables fun _ => keeps_bind keeps_get fun _ =>
    keeps_ite (keeps_throw _) (keeps_modify fun ld => h.recount ld.store)

/-- Loading any file changes only the store, and that by the relation. -/
theorem post_load_state_any (env : Env) (s : System W) :
    Post (loadState env) s (fun _ s' => ∃ store, s' = { s with store := store } ∧ R s.store store)
      (fun _ s' => ∃ store, s' = { s with store := store } ∧ R s.store store) := by
  have hsame : ∃ store, s = { s with store := store } ∧ R s.store store :=
    ⟨s.store, rfl, h.refl s.store⟩
  unfold loadState readFile
  simp only [post_bind, post_get]
  cases s.files.find s.store.options.statePath with
  | none => exact hsame
  | some raw =>
      simp only [post_pure, post_from_except]
      refine ⟨fun body _ => ?_, fun _ _ => hsame⟩
      exact post_on_body (Q := fun store => R s.store store) (E := fun store => R s.store store)
        (keeps_iff_post.mp (h.keeps_load_body env.period) _)

end LoadFrame

end Frames

end CheckpointStore
