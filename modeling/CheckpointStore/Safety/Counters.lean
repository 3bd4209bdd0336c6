import CheckpointStore.Runs.Routine
import CheckpointStore.Store.Writing

/-!
# The counters and their recomputation

A store patches its counters as it goes; `load_state` computes them anew from the records.
`Recounts` lists what a step can do to the one and to the other, and `step_recounts` says that there
is nothing else. From it follows which counters always agree with their recomputation and what the
others need (`counters_recomputed`): retired and swept checkpoints stay in the committed count, the
logical bytes are those of the data and not those of the descriptor, and an interrupted publication
or collection leaves counts behind.
-/

namespace CheckpointStore

open Foundation Foundation.Procedure Foundation.UnorderedMap

variable {W : Type}

/-- The counters that a load recomputes. -/
@[ext] structure Figures where
  familyCount : UInt64
  checkpointCount : UInt64
  committedCheckpointCount : UInt64
  manifestCount : UInt64
  blobCount : UInt64
  replicaCount : UInt64
  placementCount : UInt64
  chunkCount : UInt64
  logicalBytes : UInt64
  uniquePhysicalBytes : UInt64
  blobReferences : UInt64

/-- The figures kept by the counters. -/
def AccountingSnapshot.figures (c : AccountingSnapshot) : Figures where
  familyCount := c.familyCount
  checkpointCount := c.checkpointCount
  committedCheckpointCount := c.committedCheckpointCount
  manifestCount := c.manifestCount
  blobCount := c.blobCount
  replicaCount := c.replicaCount
  placementCount := c.placementCount
  chunkCount := c.chunkCount
  logicalBytes := c.logicalBytes
  uniquePhysicalBytes := c.uniquePhysicalBytes
  blobReferences := c.blobReferences

/-- `CheckpointStore::accounting`. -/
def Store.accounting (store : Store W) : AccountingSnapshot := store.counters

/-- The figures as they are kept. -/
def Store.live (store : Store W) : Figures := store.accounting.figures

/-- The figures as `load_state` would compute them from the tables. -/
def Store.recomputed (store : Store W) : Figures := (recomputeCounters store).accounting.figures

/-! ## The recomputed figures -/

/-- What a record contributes to the figures, whatever its lifecycle. -/
def CheckpointRecord.counted (rec : CheckpointRecord) : Nat × UInt64 :=
  (rec.chunks.length, rec.descriptor.logicalSize)

/-- The sizes of the other tables. -/
structure Tally where
  families : Nat
  blobs : Nat
  replicas : Nat
  placements : Nat
  uniquePhysicalBytes : UInt64
  references : Nat

/-- What is counted on the tables. -/
def Store.tally (store : Store W) : Tally where
  families := store.families.size
  blobs := store.blobs.size
  replicas := store.replicas.size
  placements := store.placements.size
  uniquePhysicalBytes := store.dedup.uniquePhysicalBytes
  references := store.dedup.size

/-- The figures in terms of sums over the records. -/
theorem Store.recomputed_eq (store : Store W) : store.recomputed =
    { familyCount := UInt64.ofNat store.tally.families
      checkpointCount := UInt64.ofNat (store.checkpoints.sumBy fun _ _ => 1)
      committedCheckpointCount := store.recomputed.committedCheckpointCount
      manifestCount := UInt64.ofNat (store.checkpoints.sumBy fun _ _ => 1)
      blobCount := UInt64.ofNat store.tally.blobs
      replicaCount := UInt64.ofNat store.tally.replicas
      placementCount := UInt64.ofNat store.tally.placements
      chunkCount := UInt64.ofNat (store.checkpoints.sumBy fun _ rec =>
        (UInt64.ofNat rec.counted.1).toNat)
      logicalBytes := UInt64.ofNat (store.checkpoints.sumBy fun _ rec => rec.counted.2.toNat)
      uniquePhysicalBytes := store.tally.uniquePhysicalBytes
      blobReferences := UInt64.ofNat store.tally.references } := by
  have hsize : store.checkpoints.size = store.checkpoints.sumBy fun _ _ => 1 := by
    simp [size, sumBy]
  have hchunks := foldl_values_eq_sum_by store.checkpoints fun rec =>
    UInt64.ofNat rec.chunks.length
  have hlogical := foldl_values_eq_sum_by store.checkpoints fun rec => rec.descriptor.logicalSize
  simp only [Store.recomputed, Store.accounting, AccountingSnapshot.figures, recomputeCounters,
    hsize, hchunks, hlogical]
  rfl

/-- Tables of the same sizes and records that contribute the same have the same figures, up to the
count of the committed ones. -/
theorem recomputed_of_tally {store store' : Store W} (htally : store'.tally = store.tally)
    (hrecords : ∀ id, (store'.checkpoints.find id).map CheckpointRecord.counted =
      (store.checkpoints.find id).map CheckpointRecord.counted) :
    ∃ committed, store'.recomputed =
      { store.recomputed with committedCheckpointCount := committed } := by
  have hsum : ∀ f : Nat × UInt64 → Nat,
      (store'.checkpoints.sumBy fun _ rec => f rec.counted) =
        store.checkpoints.sumBy fun _ rec => f rec.counted :=
    fun f => sum_by_eq_of_map_find_eq hrecords fun _ _ => rfl
  refine ⟨store'.recomputed.committedCheckpointCount, ?_⟩
  rw [Store.recomputed_eq store', Store.recomputed_eq store, htally, hsum fun _ => 1,
    hsum fun part => (UInt64.ofNat part.1).toNat, hsum fun part => part.2.toNat]

/-! ## Steps that change no figure -/

/-- The figures are the same, except that the committed checkpoints may be others. -/
structure SameFigures (s s' : System W) : Prop where
  live : s'.store.live = s.store.live
  recomputed : ∃ committed, s'.store.recomputed =
    { s.store.recomputed with committedCheckpointCount := committed }

theorem SameFigures.refl (s : System W) : SameFigures s s := ⟨rfl, _, rfl⟩

theorem SameFigures.recount {s₀ s s' : System W} (hs : SameFigures s₀ s)
    (hlive : s'.store.live = s.store.live) (htally : s'.store.tally = s.store.tally)
    (hrecords : ∀ id, (s'.store.checkpoints.find id).map CheckpointRecord.counted =
      (s.store.checkpoints.find id).map CheckpointRecord.counted) : SameFigures s₀ s' := by
  obtain ⟨committed, hrecomputed⟩ := recomputed_of_tally htally hrecords
  obtain ⟨_, hbefore⟩ := hs.recomputed
  exact ⟨hlive.trans hs.live, committed, by rw [hrecomputed, hbefore]⟩

theorem length_set_chunk_integrity (chunk : ChunkId) (integrity : IntegrityState)
    (chunks : List ChunkDescriptor) :
    (setChunkIntegrity chunk integrity chunks).length = chunks.length := by
  induction chunks with
  | nil => rfl
  | cons cd rest ih =>
      unfold setChunkIntegrity
      split
      · rfl
      · rw [List.length_cons, List.length_cons, ih]

/-- Routine steps change no figure. -/
theorem routine_invariant_figures (s₀ : System W) :
    RoutineInvariant fun s => SameFigures s₀ s where
  called hs _ _ _ := ⟨hs.live, hs.recomputed⟩
  observed _ hs := ⟨hs.live, hs.recomputed⟩
  drawn hs := ⟨hs.live, hs.recomputed⟩
  planned _ hs := ⟨hs.live, hs.recomputed⟩
  judged _ _ hs := hs.recount rfl rfl (map_find_modify fun _ _ => rfl)
  judgedChunk _ _ _ hs := hs.recount rfl rfl (map_find_modify fun _ _ => by
    rw [CheckpointRecord.counted, CheckpointRecord.counted, length_set_chunk_integrity])
  failed hs := ⟨hs.live, hs.recomputed⟩
  restored _ _ _ hs := ⟨hs.live, hs.recomputed⟩
  clocked _ hs := ⟨hs.live, hs.recomputed⟩
  policySet _ hs := ⟨hs.live, hs.recomputed⟩
  bootSet _ hs := ⟨hs.live, hs.recomputed⟩
  gcPlanned _ hs := ⟨hs.live, hs.recomputed⟩
  filed _ hs := ⟨hs.live, hs.recomputed⟩
  outside _ hs := ⟨hs.live, hs.recomputed⟩
  rehashed hrehashed hs := by
    cases hrehashed with
    | intro _ hfamilies hcheckpoints hblobs hreplicas hplacements _ _ _ _ hentries =>
        refine hs.recount rfl ?_ fun id => congrArg _ (hcheckpoints.find_eq id).symm
        have hbytes := hentries.values_perm.foldl_eq' (f := fun (total : UInt64) e =>
          total + e.physicalSize) (fun _ _ _ _ total => by ac_rfl) 0
        simp only [Store.tally, DedupTable.size, DedupTable.uniquePhysicalBytes,
          hfamilies.size_eq, hblobs.size_eq, hreplicas.size_eq, hplacements.size_eq,
          hentries.size_eq, hbytes]

theorem same_figures_quarantine {s₀ s : System W} (hs : SameFigures s₀ s) (id : CheckpointId)
    (rid : ReplicaId) (rd : ReplicaDescriptor) :
    SameFigures s₀ { s with store := quarantine id rid rd s.store } := by
  unfold quarantine
  split
  · refine hs.recount rfl ?_ (map_find_modify fun _ _ => rfl)
    simp [Store.tally, countIntegrityFailure]
  · exact hs.recount rfl rfl fun _ => rfl

/-- A restore changes no figure. -/
theorem same_figures_restore (env : Env) (restoreId : RestoreId) (id : CheckpointId)
    (s : System W) : SameFigures s (finalState (restore env restoreId id s)) := by
  have hrestore : Preserves (fun s' => SameFigures s s') (restore env restoreId id) :=
    (routine_invariant_figures s).toLookInvariant.preserves_restore (P := fun _ => True)
      (fun rd hs₁ _ => same_figures_quarantine hs₁ _ _ rd) _ _ fun _ _ _ _ _ _ => trivial
  exact post_final (P := fun _ (s' : System W) => SameFigures s s') (hrestore s (.refl s))

theorem same_figures_retire (env : Env) (id : CheckpointId) (s : System W) :
    SameFigures s (finalState (retire env id s)) := by
  refine post_final (P := fun _ (s' : System W) => SameFigures s s') ?_
  refine (post_retire env id s).mono (fun _ s' hs' => ?_) (by rintro _ _ rfl; exact .refl _)
  cases hs' with
  | intro => exact (SameFigures.refl s).recount rfl rfl (map_find_modify fun _ _ => rfl)

theorem same_figures_authority_reset (s : System W) :
    SameFigures s { s with store := authorityReset s.store } := by
  refine (SameFigures.refl s).recount rfl ?_ (map_find_map_values fun _ rec => ?_)
  · simp [Store.tally, authorityReset]
  · unfold CheckpointRecord.authorityReset
    split <;> rfl

/-! ## Publication -/

section Publish

variable {figures : Figures} {b : IBackend W}

/-- The figures are kept as they are. -/
def LiveAre (figures : Figures) (s : System W) : Prop := s.store.live = figures

/-- Until its commit a publication leaves the figures as they are kept. -/
theorem publish_invariant_live : PublishInvariant (W := W) (LiveAre figures) where
  called _ hs := hs
  observed _ hs := hs
  stale hs := hs
  duplicate hs := hs
  corrupt hs := hs
  shared _ hs := hs
  recorded _ _ hs := hs

/-- If the end of a publication throws, it leaves the figures as they are kept. -/
theorem post_finish_publish_live (env : Env) (descriptor : CheckpointDescriptor) (data : Bytes)
    (locals : PublishLocals) {s : System W} (hs : LiveAre figures s) :
    Post (finishPublish env b descriptor data locals) s (fun _ _ => True)
      (fun _ s' => LiveAre figures s') := by
  simp only [finishPublish, post_bind]
  refine (publish_invariant_live.ends_read_back publish_throws_anything env _ _ s hs).mono
    (fun combined s' hs' => ?_) (fun _ _ hs' => hs'.2)
  simp only [post_ite, post_bind, post_throw_store_error, post_from_except, post_next_id,
    post_modify_store, post_pure]
  exact ⟨fun _ => hs', fun _ => ⟨fun _ _ => ⟨fun _ => hs', fun _ => trivial⟩, fun _ _ => hs'⟩⟩

/-- A publication that throws leaves the figures as they are kept. One that returns patches the
figures that its loop has left alone. -/
theorem post_publish_live (env : Env) (descriptor : CheckpointDescriptor) (data : Bytes)
    (s : System W) :
    Post (publish env descriptor data) s
      (fun _ s' => ∃ b slices p, Admitted s descriptor b ∧ Rounds b slices (.start s) p ∧
        p.system.store.live = s.store.live ∧ s'.store = publishedStore env descriptor data p)
      (fun _ s' => s'.store.live = s.store.live ∧ PublishFailed env descriptor data s s') := by
  suffices hlive : Post (publish env descriptor data) s
      (fun _ s' => ∃ b slices p, Admitted s descriptor b ∧ Rounds b slices (.start s) p ∧
        p.system.store.live = s.store.live ∧ s'.store = publishedStore env descriptor data p)
      (fun _ s' => s'.store.live = s.store.live) from
    (hlive.and (post_publish env descriptor data s)).mono (fun _ _ h => h.1) (fun _ _ h => h)
  simp only [publish, post_bind, post_get, post_from_except, post_next_id, post_with_locals,
    post_try_catch]
  have hlive : PublishInvariant (LiveAre s.store.live) := publish_invariant_live (W := W)
  have hadmission := hlive.ends_check_admission (E := fun _ => True) (fun _ => trivial) descriptor
  refine ((hadmission s rfl).and (post_check_admission s descriptor)).mono (fun b s₁ hs₁ => ?_)
    (fun _ _ hs₁ => hs₁.1.2)
  obtain ⟨_, rfl, hadmitted⟩ := hs₁
  refine ⟨fun slices hslices => ?_, fun _ _ => rfl⟩
  have hsizes : ∀ slice ∈ slices, byteSize slice.bytes ≠ 0 :=
    fun slice hin => (chunk_stream_slice_ok hslices hin).size_ne_zero
  simp only [publishBody, post_bind, post_get, post_on_system, post_throw]
  have hstart : PublishingWith (LiveAre s₁.store.live) (.start s₁) := ⟨rfl, fun _ he => by cases he⟩
  have hloop := ends_for_m slices (hlive.ends_publish_slice (publish_throws_anything (b := b)))
  refine ((hloop (.start s₁) hstart).and (post_publish_loop slices hsizes (.start s₁))).mono
    (fun _ p hp => ?_) (fun _ p hp => ?_)
  · obtain ⟨⟨hlive, _⟩, hrounds⟩ := hp
    refine ((post_finish_publish env descriptor data p).and
      (post_finish_publish_live env descriptor data p.locals hlive)).mono
        (fun _ s' hs' => ?_) (fun _ s' hs' => ?_)
    · obtain ⟨⟨w, _, _, _, rfl⟩, _⟩ := hs'
      exact ⟨b, slices, p, hadmitted, hrounds, hlive, rfl⟩
    · refine (post_rollback p.locals _).mono (fun _ s'' hs'' => ?_) (fun _ _ h => h.elim)
      obtain ⟨w', _, rfl⟩ := hs''
      exact hs'.2
  · refine (post_rollback p.locals _).mono (fun _ s'' hs'' => ?_) (fun _ _ h => h.elim)
    obtain ⟨w', _, rfl⟩ := hs''
    exact hp.1.2.1

end Publish

/-! ## Collection -/

/-- A sweep changes no figure. -/
theorem live_sweep (eligible : List CheckpointId) (store : Store W) :
    (sweep eligible store).live = store.live := by
  unfold sweep
  induction eligible generalizing store with
  | nil => rfl
  | cons cid rest ih =>
      rw [List.foldl_cons, ih]
      unfold sweepCheckpoint
      split
      · rfl
      · split
        · rfl
        · simp only [Store.live, Store.accounting]
          split <;> rfl

theorem Reclaims.live {reachable bids : List BlobId} {s s' : System W}
    (h : Reclaims reachable bids s s') : s'.store.live = s.store.live := by
  induction h with
  | nil s => rfl
  | cons hround _ ih =>
      refine ih.trans ?_
      cases hround with
      | deferred => rfl
      | @forgot bd removedAny _ _ _ _ _ _ _ => cases removedAny <;> rfl

/-- A collection that returns sets two figures, one that throws none. -/
theorem post_gc_run_live (env : Env) (s : System W) :
    Post (gcRun env) s
      (fun _ s' => s'.store.live = { s.store.live with
        blobCount := UInt64.ofNat s'.store.tally.blobs
        uniquePhysicalBytes := s'.store.tally.uniquePhysicalBytes } ∧ GcRan env s s')
      (fun _ s' => s'.store.live = s.store.live ∧ GcRan env s s') := by
  suffices hlive : Post (gcRun env) s
      (fun _ s' => s'.store.live = { s.store.live with
        blobCount := UInt64.ofNat s'.store.tally.blobs
        uniquePhysicalBytes := s'.store.tally.uniquePhysicalBytes })
      (fun _ s' => s'.store.live = s.store.live) from hlive.and (post_gc_run env s)
  simp only [gcRun, post_bind, post_get, post_modify_store, post_pure]
  refine (returns_gc_eligible_checkpoints env).post fun eligible s₁ _ hs₁ => ?_
  refine (returns_compute_protected_set env).post fun retained s₂ _ hs₂ => ?_
  obtain ⟨n, rfl⟩ := trans_of ClockOnly hs₁ hs₂
  refine (post_reclaim_blobs _ _ _ _).mono (fun _ s₃ hreclaims => ?_) (fun _ s₄ hs₄ => ?_)
  · have hbefore := hreclaims.live.trans (live_sweep eligible s.store)
    show { s₃.store.live with
      blobCount := UInt64.ofNat s₃.store.tally.blobs
      uniquePhysicalBytes := s₃.store.tally.uniquePhysicalBytes } = _
    rw [hbefore]
    rfl
  · obtain ⟨done, bid, rest, s₃, _, hreclaims, hthrew⟩ := hs₄
    cases hthrew with
    | intro => exact hreclaims.live.trans (live_sweep eligible s.store)

/-! ## Every step -/

/-- What a step may do to the figures `l` that are kept and to the recomputed figures `r`. -/
inductive Recounts (s : System W) (l r : Figures) : Event W → Figures → Figures → Prop where
  | kept {e : Event W} (committed : UInt64) :
      Recounts s l r e l { r with committedCheckpointCount := committed }
  | family {e : Event W} (families : UInt64) :
      Recounts s l r e { l with familyCount := families } { r with familyCount := families }
  | published {descriptor : CheckpointDescriptor} {data : Bytes} {r' : Figures} (chunks : UInt64)
      (hfamilies : r'.familyCount = r.familyCount) (hchunks : r'.chunkCount = r.chunkCount + chunks)
      (hlogical : r'.logicalBytes = r.logicalBytes + descriptor.logicalSize) :
      Recounts s l r (.call (.publish descriptor data) none)
        { r' with
          familyCount := l.familyCount
          committedCheckpointCount := r'.checkpointCount
          chunkCount := l.chunkCount + chunks
          logicalBytes := l.logicalBytes + byteSize data } r'
  | interrupted {descriptor : CheckpointDescriptor} {data : Bytes} {exn : Exn} {b : IBackend W}
      (hadmitted : Admitted s descriptor b)
      (committed blobs placements unique references : UInt64) :
      Recounts s l r (.call (.publish descriptor data) (some exn)) l
        { r with
          committedCheckpointCount := committed
          blobCount := blobs
          placementCount := placements
          uniquePhysicalBytes := unique
          blobReferences := references }
  | collected (committed blobs unique references : UInt64) :
      Recounts s l r (.call .gcRun none)
        { l with blobCount := blobs, uniquePhysicalBytes := unique }
        { r with
          committedCheckpointCount := committed
          blobCount := blobs
          uniquePhysicalBytes := unique
          blobReferences := references }
  | stopped {exn : Exn} (committed blobs unique references : UInt64) :
      Recounts s l r (.call .gcRun (some exn)) l
        { r with
          committedCheckpointCount := committed
          blobCount := blobs
          uniquePhysicalBytes := unique
          blobReferences := references }

theorem SameFigures.recounts {s s' : System W} (h : SameFigures s s') (e : Event W) :
    Recounts s s.store.live s.store.recomputed e s'.store.live s'.store.recomputed := by
  obtain ⟨committed, hrecomputed⟩ := h.recomputed
  rw [h.live, hrecomputed]
  exact .kept committed

/-- A publication adds its chunks and its logical size to the sums over the records. -/
theorem Rounds.recounts {env : Env} {b : IBackend W} {slices : List ChunkSlice} {s : System W}
    {p : Publishing W} (h : Rounds b slices (.start s) p) {descriptor : CheckpointDescriptor}
    (hadmitted : Admitted s descriptor b) (hlive : p.system.store.live = s.store.live)
    (data : Bytes) :
    Recounts s s.store.live s.store.recomputed (.call (.publish descriptor data) none)
      (publishedStore env descriptor data p).live
      (publishedStore env descriptor data p).recomputed := by
  obtain ⟨_, _, _, _, _, hstore⟩ := h.store_eq
  have hcheckpoints : (publishedStore env descriptor data p).checkpoints =
      s.store.checkpoints.assign descriptor.id (publishedRecord env descriptor data p) := by
    have hsame : p.system.store.checkpoints = s.store.checkpoints := by
      rw [hstore]
      rfl
    rw [← emplace_of_find_none hadmitted.fresh, ← hsame]
    rfl
  have hfamilies : (publishedStore env descriptor data p).tally.families =
      s.store.tally.families := by
    show (p.system.store.families.modify _ _).size = _
    rw [size_modify, hstore]
    rfl
  have hsum : ∀ f : Nat × UInt64 → Nat,
      ((publishedStore env descriptor data p).checkpoints.sumBy fun _ rec => f rec.counted) =
        f (p.locals.chunkDescriptors.length, descriptor.logicalSize) +
          s.store.checkpoints.sumBy fun _ rec => f rec.counted := by
    intro f
    rw [hcheckpoints, sum_by_assign_fresh hadmitted.fresh]
    rfl
  have hlive' : (publishedStore env descriptor data p).live =
      { (publishedStore env descriptor data p).recomputed with
        familyCount := p.system.store.live.familyCount
        committedCheckpointCount :=
          (publishedStore env descriptor data p).recomputed.checkpointCount
        chunkCount := p.system.store.live.chunkCount +
          UInt64.ofNat p.locals.chunkDescriptors.length
        logicalBytes := p.system.store.live.logicalBytes + byteSize data } := rfl
  rw [hlive', hlive]
  refine .published _ ?_ ?_ ?_
  · rw [Store.recomputed_eq, Store.recomputed_eq s.store, hfamilies]
  · rw [Store.recomputed_eq, Store.recomputed_eq s.store]
    simp only
    rw [hsum fun part => (UInt64.ofNat part.1).toNat, UInt64.ofNat_add, UInt64.ofNat_toNat,
      UInt64.add_comm]
  · rw [Store.recomputed_eq, Store.recomputed_eq s.store]
    simp only
    rw [hsum fun part => part.2.toNat, UInt64.ofNat_add, UInt64.ofNat_toNat, UInt64.add_comm]

/-- A failed publication was rejected, or it may have left blobs, placements and entries behind. -/
theorem PublishFailed.recounts {env : Env} {descriptor : CheckpointDescriptor} {data : Bytes}
    {s s' : System W} (h : PublishFailed env descriptor data s s')
    (hlive : s'.store.live = s.store.live) (exn : Exn) :
    Recounts s s.store.live s.store.recomputed (.call (.publish descriptor data) (some exn))
      s'.store.live s'.store.recomputed := by
  obtain ⟨t, c, blobs, placements, n, hstore⟩ := h.store_eq
  cases h with
  | rejected =>
      exact ((SameFigures.refl s).recount hlive rfl fun _ => rfl).recounts _
  | interrupted hadmitted =>
      rw [hlive, hstore]
      exact .interrupted hadmitted _ _ _ _ _

/-- A collection keeps the records apart from their lifecycles. -/
theorem GcRan.recomputed {env : Env} {s s' : System W} (h : GcRan env s s') :
    s'.store.recomputed = { s.store.recomputed with
      committedCheckpointCount := s'.store.recomputed.committedCheckpointCount
      blobCount := UInt64.ofNat s'.store.tally.blobs
      uniquePhysicalBytes := s'.store.tally.uniquePhysicalBytes
      blobReferences := UInt64.ofNat s'.store.tally.references } := by
  obtain ⟨t, checkpoints, c, blobs, gc, hstore⟩ := h.store_eq
  have hrecords : ∀ id, (s'.store.checkpoints.find id).map CheckpointRecord.counted =
      (s.store.checkpoints.find id).map CheckpointRecord.counted := h.map_find fun _ => rfl
  -- With the tables that a collection changes put back, the sizes are the old ones.
  have htally : Store.tally { s'.store with dedup := s.store.dedup, blobs := s.store.blobs } =
      s.store.tally := by
    rw [hstore]
    rfl
  obtain ⟨committed, hrecomputed⟩ := recomputed_of_tally htally hrecords
  have hrest : s'.store.recomputed = { (Store.recomputed
      { s'.store with dedup := s.store.dedup, blobs := s.store.blobs }) with
        committedCheckpointCount := s'.store.recomputed.committedCheckpointCount
        blobCount := UInt64.ofNat s'.store.tally.blobs
        uniquePhysicalBytes := s'.store.tally.uniquePhysicalBytes
        blobReferences := UInt64.ofNat s'.store.tally.references } := rfl
  rw [hrest, hrecomputed]

/-- Every step but a restart changes the figures in one of these ways. -/
theorem step_recounts {env : Env} {R : W → W → Prop} {s s' : System W} {e : Event W}
    (hstep : Step env R s e s') (hreopens : e.reopens = false) :
    Recounts s s.store.live s.store.recomputed e s'.store.live s'.store.recomputed := by
  have hroutine : e.routine = true → Recounts s s.store.live s.store.recomputed e s'.store.live
      s'.store.recomputed := fun hroutine =>
    ((routine_invariant_figures s).step hstep hroutine (.refl s)).recounts e
  cases hstep with
  | rehash | outside => exact hroutine rfl
  | call op =>
      cases op with
      | createFamily => exact .family _
      | publish descriptor data =>
          refine post_final (P := fun thrown (s' : System W) =>
            Recounts s s.store.live s.store.recomputed
            (.call (.publish descriptor data) thrown) s'.store.live s'.store.recomputed) ?_
          simp only [Op.run, post_map]
          refine (post_publish_live env descriptor data s).mono (fun _ s' hs' => ?_)
            (fun exn s' hs' => hs'.2.recounts hs'.1 exn)
          obtain ⟨b, slices, p, hadmitted, hrounds, hlive, hstore⟩ := hs'
          rw [hstore]
          exact hrounds.recounts hadmitted hlive data
      | retire id => exact (same_figures_retire env id s).recounts _
      | gcRun =>
          refine post_final (P := fun thrown (s' : System W) =>
            Recounts s s.store.live s.store.recomputed
            (.call .gcRun thrown) s'.store.live s'.store.recomputed) ?_
          simp only [Op.run, post_map]
          refine (post_gc_run_live env s).mono (fun _ s' hs' => ?_) (fun exn s' hs' => ?_)
          · rw [hs'.1, hs'.2.recomputed]
            exact .collected _ _ _ _
          · rw [hs'.1, hs'.2.recomputed]
            exact .stopped _ _ _ _
      | restore restoreId id =>
          rw [Op.run, final_state_map]
          exact (same_figures_restore env restoreId id s).recounts _
      | resetAuthority => exact (same_figures_authority_reset s).recounts _
      | reopen => simp [Event.reopens] at hreopens
      | _ => exact hroutine rfl

/-! ## Runs -/

/-- The figures that are always right. The count of the committed checkpoints is that of all. -/
structure AlwaysRight (l r : Figures) : Prop where
  families : l.familyCount = r.familyCount
  checkpoints : l.checkpointCount = r.checkpointCount
  committed : l.committedCheckpointCount = r.checkpointCount
  manifests : l.manifestCount = r.manifestCount
  replicas : l.replicaCount = r.replicaCount
  chunks : l.chunkCount = r.chunkCount

section Invariants

variable {s : System W} {l r l' r' : Figures} {e : Event W}

theorem Recounts.always_right (h : Recounts s l r e l' r') (hs : AlwaysRight l r) :
    AlwaysRight l' r' := by
  obtain ⟨hfamilies, hcheckpoints, hcommitted, hmanifests, hreplicas, hchunks⟩ := hs
  cases h with
  | kept | interrupted | collected | stopped =>
      exact ⟨hfamilies, hcheckpoints, hcommitted, hmanifests, hreplicas, hchunks⟩
  | family => exact ⟨rfl, hcheckpoints, hcommitted, hmanifests, hreplicas, hchunks⟩
  | published chunks hfamilies' hchunks' _ =>
      exact ⟨hfamilies.trans hfamilies'.symm, rfl, rfl, rfl, rfl, by rw [hchunks', ← hchunks]⟩

/-- If the event publishes data, then under a descriptor with their size. -/
def Event.SizeDeclared (e : Event W) : Prop :=
  ∀ published ∈ e.publication, published.1.logicalSize = byteSize published.2

/-- The logical bytes stay right if sizes are declared. -/
theorem Recounts.logical_bytes (h : Recounts s l r e l' r') (hsize : e.SizeDeclared)
    (hs : l.logicalBytes = r.logicalBytes) : l'.logicalBytes = r'.logicalBytes := by
  cases h with
  | kept | interrupted | collected | stopped | family => exact hs
  | published _ _ _ hlogical => rw [hlogical, hsize _ rfl, ← hs]

/-- The event is no publication that was admitted and then threw. -/
def Event.Uninterrupted (s : System W) : Event W → Prop
  | .call (.publish descriptor _) (some _) => ∀ b, ¬ Admitted s descriptor b
  | _ => True

/-- The placements stay right unless an admitted publication fails. -/
theorem Recounts.placements (h : Recounts s l r e l' r') (he : e.Uninterrupted s)
    (hs : l.placementCount = r.placementCount) : l'.placementCount = r'.placementCount := by
  cases h with
  | kept | collected | stopped | family => exact hs
  | published => rfl
  | interrupted hadmitted => exact absurd hadmitted (he _)

/-- The event is no collection that threw. -/
def Event.collectionThrew : Event W → Bool
  | .call .gcRun (some _) => true
  | _ => false

theorem Recounts.blobs (h : Recounts s l r e l' r') (he : e.Uninterrupted s)
    (hthrew : e.collectionThrew = false)
    (hs : l.blobCount = r.blobCount ∧ l.uniquePhysicalBytes = r.uniquePhysicalBytes) :
    l'.blobCount = r'.blobCount ∧ l'.uniquePhysicalBytes = r'.uniquePhysicalBytes := by
  cases h with
  | kept | family => exact hs
  | published | collected => exact ⟨rfl, rfl⟩
  | interrupted hadmitted => exact absurd hadmitted (he _)
  | stopped => simp [Event.collectionThrew] at hthrew

/-- The event is a collection. -/
def Event.collects : Event W → Bool
  | .call .gcRun _ => true
  | _ => false

/-- The references stay right unless a collection runs or an admitted publication fails. -/
theorem Recounts.references (h : Recounts s l r e l' r') (he : e.Uninterrupted s)
    (hcollects : e.collects = false) (hs : l.blobReferences = r.blobReferences) :
    l'.blobReferences = r'.blobReferences := by
  cases h with
  | kept | family => exact hs
  | published => rfl
  | interrupted hadmitted => exact absurd hadmitted (he _)
  | collected | stopped => simp [Event.collects] at hcollects

end Invariants

/-- With all records committed, all are counted. -/
theorem recomputed_all_committed {store : Store W}
    (h : ∀ id rec, store.checkpoints.find id = some rec → rec.lifecycle = .committed) :
    store.recomputed.committedCheckpointCount = store.recomputed.checkpointCount := by
  have hall : store.checkpoints.values.countP (fun rec => rec.lifecycle = .committed) =
      store.checkpoints.values.length := by
    rw [List.countP_eq_length]
    intro rec hrec
    obtain ⟨id, hfind⟩ := mem_values.mp hrec
    simpa using h id rec hfind
  show UInt64.ofNat (store.checkpoints.values.countP _) = UInt64.ofNat store.checkpoints.size
  rw [hall]
  simp [values, size]

/-- The counters and their recomputation. In every run without a restart the counts of families,
checkpoints, manifests, replicas and chunks agree. The count of the committed checkpoints agrees
while none is retired or deleted, the logical bytes agree if the descriptors declare the size of the
data. As long as no publication is interrupted the placements agree, the blobs and the unique bytes
do if no collection throws, and the references if there is none. -/
theorem counters_recomputed {env : Env} {options : StoreOptions}
    {backends : UnorderedMap StorageBackendId (IBackend W)} {w : W} {events : List (Event W)}
    {s : System W} (hrun : Run (Step env Anything) (.fresh options backends w) events s)
    (hreopens : ∀ e ∈ events, e.reopens = false) :
    (let l := s.store.live
    let r := s.store.recomputed
    l.familyCount = r.familyCount ∧ l.checkpointCount = r.checkpointCount ∧
    l.manifestCount = r.manifestCount ∧ l.replicaCount = r.replicaCount ∧
    l.chunkCount = r.chunkCount ∧
    ((∀ id rec, s.store.checkpoints.find id = some rec → rec.lifecycle = .committed) →
      l.committedCheckpointCount = r.committedCheckpointCount) ∧
    ((∀ e ∈ events, e.SizeDeclared) → l.logicalBytes = r.logicalBytes) ∧
    (Run (fun s e s' => Step env Anything s e s' ∧ e.Uninterrupted s)
        (.fresh options backends w) events s →
      l.placementCount = r.placementCount ∧
      ((∀ e ∈ events, e.collectionThrew = false) →
        l.blobCount = r.blobCount ∧ l.uniquePhysicalBytes = r.uniquePhysicalBytes) ∧
      ((∀ e ∈ events, e.collects = false) → l.blobReferences = r.blobReferences))) := by
  have hright : AlwaysRight s.store.live s.store.recomputed := by
    refine Run.invariant_on (A := fun e => e.reopens = false)
      (fun _ s => AlwaysRight s.store.live s.store.recomputed) ⟨rfl, rfl, rfl, rfl, rfl, rfl⟩ ?_
      hrun hreopens
    exact fun _ _ _ _ _ hs hreopens hstep => (step_recounts hstep hreopens).always_right hs
  refine ⟨hright.families, hright.checkpoints, hright.manifests, hright.replicas, hright.chunks,
    fun hall => hright.committed.trans (recomputed_all_committed hall).symm, fun hsizes => ?_,
    fun huninterrupted => ⟨?_, fun hthrew => ?_, fun hcollects => ?_⟩⟩
  · refine Run.invariant_on (A := fun e => e.reopens = false ∧ e.SizeDeclared)
      (fun _ s => s.store.live.logicalBytes = s.store.recomputed.logicalBytes) rfl ?_
      hrun fun e he => ⟨hreopens e he, hsizes e he⟩
    exact fun _ _ _ _ _ hs he hstep => (step_recounts hstep he.1).logical_bytes he.2 hs
  · refine Run.invariant_on (A := fun e => e.reopens = false)
      (fun _ s => s.store.live.placementCount = s.store.recomputed.placementCount) rfl ?_
      huninterrupted hreopens
    exact fun _ _ _ _ _ hs hreopens hstep =>
      (step_recounts hstep.1 hreopens).placements hstep.2 hs
  · refine Run.invariant_on (A := fun e => e.reopens = false ∧ e.collectionThrew = false)
      (fun _ s => s.store.live.blobCount = s.store.recomputed.blobCount ∧
        s.store.live.uniquePhysicalBytes = s.store.recomputed.uniquePhysicalBytes) ⟨rfl, rfl⟩ ?_
      huninterrupted fun e he => ⟨hreopens e he, hthrew e he⟩
    exact fun _ _ _ _ _ hs he hstep => (step_recounts hstep.1 he.1).blobs hstep.2 he.2 hs
  · refine Run.invariant_on (A := fun e => e.reopens = false ∧ e.collects = false)
      (fun _ s => s.store.live.blobReferences = s.store.recomputed.blobReferences) rfl ?_
      huninterrupted fun e he => ⟨hreopens e he, hcollects e he⟩
    exact fun _ _ _ _ _ hs he hstep => (step_recounts hstep.1 he.1).references hstep.2 he.2 hs

/-- A checkpoint of two chunks is counted. -/
theorem counters_recomputed_published :
    let s := sampleRun tagHash [] [.createFamily, .publish (sampleDescriptor 7 1 2) [0, 1], .gcPlan]
    s.store.live = s.store.recomputed ∧ s.store.live.chunkCount = 2 := by
  have hreturned : thrown ((Op.publish (sampleDescriptor 7 1 2) [0, 1]).run (sampleEnv tagHash)
      (sampleRun tagHash [] [.createFamily])) = none := by
    decide +kernel
  have huninterrupted : callsSatisfy (sampleEnv tagHash) (fun s e _ => e.Uninterrupted s)
      (sampleSystem tagHash [])
      [.createFamily, .publish (sampleDescriptor 7 1 2) [0, 1], .gcPlan] := by
    refine ⟨trivial, ?_, trivial, trivial⟩
    show Event.Uninterrupted _ (.call _ (thrown ((Op.publish (sampleDescriptor 7 1 2) [0, 1]).run
      (sampleEnv tagHash) (sampleRun tagHash [] [.createFamily]))))
    rw [hreturned]
    trivial
  have hcommitted : ∀ rec ∈ (sampleRun tagHash [] [.createFamily,
      .publish (sampleDescriptor 7 1 2) [0, 1], .gcPlan]).store.checkpoints.values,
      rec.lifecycle = .committed := by
    decide +kernel
  obtain ⟨hfamilies, hcheckpoints, hmanifests, hreplicas, hchunks, hall, hlogical, hrest⟩ :=
    counters_recomputed (run_calls (sampleEnv tagHash) Anything (sampleSystem tagHash [])
      [.createFamily, .publish (sampleDescriptor 7 1 2) [0, 1], .gcPlan]) (by decide +kernel)
  obtain ⟨hplacements, hblobs, hreferences⟩ := hrest (run_calls_where huninterrupted)
  obtain ⟨hblobs, hunique⟩ := hblobs (by decide +kernel)
  refine ⟨Figures.ext hfamilies hcheckpoints (hall fun id rec hfind => hcommitted rec
    (mem_values.mpr ⟨id, hfind⟩)) hmanifests hblobs hreplicas hplacements hchunks (hlogical ?_)
    hunique (hreferences (by decide +kernel)), by decide +kernel⟩
  unfold Event.SizeDeclared
  decide +kernel

/-- A publication under a wrong size, one that fails when it reads its chunk back, and a
retirement. -/
def miscounted : List (Op MemoryWorld) := [
  .createFamily,
  .publish (sampleDescriptor 7 1 5) [],
  .publish (sampleDescriptor 8 2 1) [5],
  .retire ⟨7⟩]

/-- Four of the counters can differ from what a load would compute. -/
theorem counters_differ :
    ∃ events s, Run (Step (sampleEnv sha256Hash) Anything)
        (sampleSystem sha256Hash [false, false, true]) events s ∧
      (∀ e ∈ events, e.reopens = false) ∧
      s.store.live.committedCheckpointCount ≠ s.store.recomputed.committedCheckpointCount ∧
      s.store.live.logicalBytes ≠ s.store.recomputed.logicalBytes ∧
      s.store.live.placementCount ≠ s.store.recomputed.placementCount ∧
      s.store.live.blobCount ≠ s.store.recomputed.blobCount := by
  have hdiffer :
      let s := sampleRun sha256Hash [false, false, true] miscounted
      s.store.live.committedCheckpointCount ≠ s.store.recomputed.committedCheckpointCount ∧
        s.store.live.logicalBytes ≠ s.store.recomputed.logicalBytes ∧
        s.store.live.placementCount ≠ s.store.recomputed.placementCount ∧
        s.store.live.blobCount ≠ s.store.recomputed.blobCount := by
    decide +kernel
  refine ⟨_, _, run_calls (sampleEnv sha256Hash) Anything
    (sampleSystem sha256Hash [false, false, true]) miscounted, fun e he => ?_, hdiffer⟩
  exact reopens_of_mem_call_events (by decide) he

end CheckpointStore
