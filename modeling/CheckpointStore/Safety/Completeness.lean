import CheckpointStore.Safety.Inventory
import CheckpointStore.Safety.Records
import CheckpointStore.Safety.Restorable
import CheckpointStore.Store.Protection

/-!
# Garbage collection is complete

In a tidy store, and while the clock stands still, `gc_plan` followed by `gc_run` leaves only what
the checkpoints of the protected set refer to, and a second round has nothing to do
(`gc_complete`). A blob that stays is reachable or still counted; counts are exact and every
checkpoint that is not deleted is protected after the sweep, so in both cases a protected
checkpoint has it.
-/

namespace CheckpointStore

open Foundation Foundation.Procedure Foundation.UnorderedMap

variable {W : Type}

/-- A chunk of a checkpoint in the set. -/
def ChunkOf (store : Store W) (retained : List CheckpointId) (cd : ChunkDescriptor) : Prop :=
  ∃ id ∈ retained, ∃ rec, store.checkpoints.find id = some rec ∧ cd ∈ rec.chunks

/-- Blobs, entries and objects belong to chunks of checkpoints in the set, and no checkpoint
outside of it is committed or retired. -/
structure Collected (view : ObjectView W) (retained : List CheckpointId) (s : System W) : Prop where
  blobs : ∀ bid bd, s.store.blobs.find bid = some bd →
    ∃ cd, ChunkOf s.store retained cd ∧ cd.blobId = bid ∧ cd.digest = bd.digest
  entries : ∀ d e, s.store.dedup.find d = some e → ∃ cd, ChunkOf s.store retained cd ∧ cd.digest = d
  objects : ∀ d x, view.objects s.world (blobKey d) = some x →
    ∃ cd, ChunkOf s.store retained cd ∧ cd.digest = d
  checkpoints : ∀ id rec, s.store.checkpoints.find id = some rec → id ∉ retained →
    rec.lifecycle ≠ .committed ∧ rec.lifecycle ≠ .retired

/-- Records, entries, blobs and objects are the same. -/
structure SameHoldings (view : ObjectView W) (s s' : System W) : Prop where
  checkpoints : s'.store.checkpoints = s.store.checkpoints
  dedup : s'.store.dedup = s.store.dedup
  blobs : s'.store.blobs = s.store.blobs
  objects : view.Same s.world s'.world

/-- `gc_plan` and `gc_run` return and leave only what the protected set needs; calling them again
reclaims nothing and changes nothing. -/
def CollectsCompletely (env : Env) (view : ObjectView W) (s : System W) : Prop :=
  ∃ plan s₁ result s₂, gcPlan env s = .ok plan s₁ ∧ gcRun env s₁ = .ok result s₂ ∧
    (∃ retained t, computeProtectedSet env s₂ = .ok retained t ∧ Collected view retained s₂) ∧
    ∃ plan' s₃ result' s₄, gcPlan env s₂ = .ok plan' s₃ ∧ gcRun env s₃ = .ok result' s₄ ∧
      result'.reclaimedBlobs = [] ∧ result'.reclaimedBytes = 0 ∧ SameHoldings view s₂ s₄

/-! ## The protected set during a collection -/

/-- The checkpoint is protected when the clock shows `present`. -/
def ProtectedAt (env : Env) (present : TimePoint) (store : Store W) (id : CheckpointId) : Prop :=
  Protected store (keptAt env present store) id

/-- A protected checkpoint has a chunk in the blob. -/
def Reached (env : Env) (present : TimePoint) (store : Store W) (bid : BlobId) : Prop :=
  ∃ id rec, ProtectedAt env present store id ∧ store.checkpoints.find id = some rec ∧
    ∃ cd ∈ rec.chunks, cd.blobId = bid

/-- The plan lists the blobs that no protected checkpoint reaches. -/
def PlanCurrent (env : Env) (present : TimePoint) (store : Store W) : Prop :=
  ∀ bid, bid ∈ store.gc.reclaimableBlobs ↔
    store.blobs.find bid ≠ none ∧ ¬ Reached env present store bid

section Protection

variable {env : Env} {present : TimePoint} {s s₁ s₂ s' : System W}

/-- The computed set has the protected checkpoints, also when the clock was read before. -/
theorem mem_protected_set_clock (hclock : ∀ n, env.clock n = present) {retained : List CheckpointId}
    (hs : ClockOnly s s₁) (hrun : computeProtectedSet env s₁ = .ok retained s₂)
    (id : CheckpointId) : id ∈ retained ↔ ProtectedAt env present s.store id := by
  obtain ⟨n, rfl⟩ := hs
  exact mem_protected_set_iff (s := { s with ticks := n }) (verdict_fixed_clock hclock s.store) hrun
    id

/-- The reachable blobs are those of protected checkpoints. -/
theorem mem_reachable_iff {store : Store W} (hfiled : WellKeyed store)
    {retained : List CheckpointId}
    (hretained : ∀ id, id ∈ retained ↔ ProtectedAt env present store id)
    {bid : BlobId} :
    bid ∈ computeReachable store.checkpoints.values retained ↔ Reached env present store bid := by
  rw [mem_compute_reachable]
  constructor
  · rintro ⟨rec, hrec, hin, hchunk⟩
    obtain ⟨id, hfind⟩ := mem_values.mp hrec
    rw [hfiled.checkpoints id rec hfind] at hin
    exact ⟨id, rec, (hretained id).mp hin, hfind, hchunk⟩
  · rintro ⟨id, rec, hid, hfind, hchunk⟩
    refine ⟨rec, mem_values.mpr ⟨id, hfind⟩, ?_, hchunk⟩
    rw [hfiled.checkpoints id rec hfind]
    exact (hretained id).mpr hid

theorem Planned.protected_iff (h : Planned env s s') (id : CheckpointId) :
    ProtectedAt env present s'.store id ↔ ProtectedAt env present s.store id := by
  have hcheckpoints : s'.store.checkpoints = s.store.checkpoints := by
    cases h with
    | intro => rfl
  have hkept : keptAt env present s'.store = keptAt env present s.store := by
    cases h with
    | intro => rfl
  unfold ProtectedAt
  rw [hkept]
  exact ⟨.of_unchanged fun _ _ => by rw [hcheckpoints],
    .of_unchanged fun _ _ => by rw [hcheckpoints]⟩

theorem Planned.reached_iff (h : Planned env s s') (bid : BlobId) :
    Reached env present s'.store bid ↔ Reached env present s.store bid := by
  have hprotected : ∀ id, ProtectedAt env present s'.store id ↔
      ProtectedAt env present s.store id :=
    h.protected_iff
  unfold Reached
  simp only [hprotected]
  cases h with
  | intro => rfl

/-- A plan is current when it is made. -/
theorem Planned.current (hclock : ∀ n, env.clock n = present) (hfiled : WellKeyed s.store)
    (h : Planned env s s') : PlanCurrent env present s'.store := by
  intro bid
  rw [h.reached_iff]
  cases h with
  | @intro retained _ _ _ _ hs hretained =>
      rw [← mem_reachable_iff hfiled (mem_protected_set_clock hclock hs hretained)]
      simp only [plannedGc, List.mem_filter, decide_eq_true_eq]
      refine and_congr_left fun _ => ?_
      rw [Option.ne_none_iff_exists']
      constructor
      · intro hin
        obtain ⟨⟨_, bd⟩, hentry, rfl⟩ := List.mem_map.mp hin
        exact ⟨bd, find_eq_some_iff.mpr hentry⟩
      · rintro ⟨bd, hfind⟩
        exact List.mem_map.mpr ⟨(bid, bd), find_eq_some_iff.mp hfind, rfl⟩

/-- A collection changes no verdict. -/
theorem GcRan.kept_at (h : GcRan env s s') :
    keptAt env present s'.store = keptAt env present s.store := by
  obtain ⟨_, _, _, _, _, hstore⟩ := h.store_eq
  exact kept_at_congr env present (by rw [hstore]) (by rw [hstore]) (h.map_find fun _ => rfl)

/-- A collection sweeps the committed and retired checkpoints that are not protected. -/
theorem GcRan.swept (hclock : ∀ n, env.clock n = present) (h : GcRan env s s') :
    ∃ eligible, s'.store.checkpoints = (sweep eligible s.store).checkpoints ∧
      ∀ id, id ∈ eligible ↔ ∃ rec, s.store.checkpoints.find id = some rec ∧
        (rec.lifecycle = .committed ∨ rec.lifecycle = .retired) ∧
        ¬ ProtectedAt env present s.store id := by
  obtain ⟨eligible, _, heligible, hcheckpoints⟩ := h.swept_eligible
  exact ⟨eligible, hcheckpoints,
    mem_gc_eligible_iff (verdict_fixed_clock hclock s.store) heligible⟩

/-- A protected checkpoint keeps its record through a collection. -/
theorem GcRan.find_protected (hclock : ∀ n, env.clock n = present) (h : GcRan env s s')
    {id : CheckpointId} (hid : ProtectedAt env present s.store id) :
    s'.store.checkpoints.find id = s.store.checkpoints.find id := by
  obtain ⟨eligible, hcheckpoints, hmem⟩ := h.swept hclock
  rw [hcheckpoints, find_sweep_eq, if_neg]
  intro hin
  obtain ⟨_, _, _, hnot⟩ := (hmem id).mp hin
  exact hnot hid

/-- A collection keeps protection. -/
theorem GcRan.protected_of (hclock : ∀ n, env.clock n = present) (h : GcRan env s s')
    {id : CheckpointId} (hid : ProtectedAt env present s.store id) :
    ProtectedAt env present s'.store id := by
  unfold ProtectedAt
  rw [h.kept_at]
  exact Protected.of_unchanged (fun _ hcid => h.find_protected hclock hcid) hid

/-- After a collection the checkpoints that were not protected are neither committed nor
retired. -/
theorem GcRan.lifecycle_of_unprotected (hclock : ∀ n, env.clock n = present) (h : GcRan env s s')
    {id : CheckpointId} (hid : ¬ ProtectedAt env present s.store id) {rec : CheckpointRecord}
    (hfind : s'.store.checkpoints.find id = some rec) :
    rec.lifecycle ≠ .committed ∧ rec.lifecycle ≠ .retired := by
  obtain ⟨eligible, hcheckpoints, hmem⟩ := h.swept hclock
  rw [hcheckpoints, find_sweep_eq] at hfind
  by_cases hin : id ∈ eligible
  · rw [if_pos hin] at hfind
    obtain ⟨rec₀, _, rfl⟩ := Option.map_eq_some_iff.mp hfind
    rcases swept_lifecycle rec₀ with hlifecycle | hlifecycle <;> simp [hlifecycle]
  · rw [if_neg hin] at hfind
    refine ⟨fun hcommitted => hin ?_, fun hretired => hin ?_⟩
    · exact (hmem id).mpr ⟨rec, hfind, Or.inl hcommitted, hid⟩
    · exact (hmem id).mpr ⟨rec, hfind, Or.inr hretired, hid⟩

end Protection

/-! ## One collection -/

section Collecting

variable {env : Env} {present : TimePoint} {b : IBackend W} {view : ObjectView W}
  {C : Bytes → Prop} {s s' : System W}

/-- A counted digest is the digest of a chunk of a checkpoint that is not deleted. -/
theorem Tidy.live_chunk {H : StreamHash} (hs : Tidy H b view C s) {d : Digest}
    (hd : s.store.dedup.refcount d ≠ 0) :
    ∃ id rec, s.store.checkpoints.find id = some rec ∧ rec.lifecycle ≠ .deleted ∧
      ∃ cd ∈ rec.chunks, cd.digest = d := by
  have hlive : liveReferences s.store d ≠ 0 := by
    rw [← hs.counts d]
    exact fun h0 => hd (UInt64.toNat_inj.mp h0)
  obtain ⟨n, hn, hpositive⟩ := List.exists_mem_ne_zero_of_sum_ne_zero hlive
  obtain ⟨⟨id, rec⟩, hentry, rfl⟩ := List.mem_map.mp hn
  dsimp only [CheckpointRecord.references] at hpositive
  by_cases hdeleted : rec.lifecycle = .deleted
  · simp [hdeleted] at hpositive
  · rw [if_neg hdeleted, countDigest] at hpositive
    obtain ⟨cd, hcd, hdigest⟩ := List.countP_pos_iff.mp (Nat.pos_of_ne_zero hpositive)
    exact ⟨id, rec, find_eq_some_iff.mpr hentry, hdeleted, cd, hcd, by simpa using hdigest⟩

/-- A blob that a collection keeps, following a current plan, is reached or counted. -/
theorem GcRan.kept_blob (hb : b.Lawful env.hash view) (hremoves : b.Removes view)
    (hclock : ∀ n, env.clock n = present)
    (hbackends : ∀ id b', s.store.backends.find id = some b' → b' = b) (hfiled : WellKeyed s.store)
    (hplan : PlanCurrent env present s.store) (h : GcRan env s s') {bid : BlobId}
    {bd : BlobDescriptor} (hfind : s'.store.blobs.find bid = some bd) :
    Reached env present s.store bid ∨ s'.store.dedup.refcount bd.digest ≠ 0 := by
  cases h with
  | @completed eligible retained _ _ s₃ heligible hretained hreclaims =>
      have hclockOnly := Returns.of_ok (returns_gc_eligible_checkpoints env) heligible
      have hreachable : bid ∈ computeReachable s.store.checkpoints.values retained ↔
          Reached env present s.store bid :=
        mem_reachable_iff hfiled (mem_protected_set_clock hclock hclockOnly hretained)
      by_cases hin : bid ∈ computeReachable s.store.checkpoints.values retained
      · exact Or.inl (hreachable.mp hin)
      · have hbefore : s.store.blobs.find bid = some bd := by
          have hswept := hreclaims.find_blob hfind
          obtain ⟨_, _, _, hsweep⟩ := sweep_store_eq eligible s.store
          dsimp only at hswept
          rwa [hsweep] at hswept
        have hlisted : bid ∈ s.store.gc.reclaimableBlobs :=
          (hplan bid).mpr ⟨by simp [hbefore], fun hreached => hin (hreachable.mpr hreached)⟩
        exact Or.inr (hreclaims.counted_of_kept hlisted hin hfind)
  | @interrupted eligible _ _ _ _ _ _ _ _ _ _ _ hreclaims hthrew =>
      refine absurd hthrew (not_reclaim_threw hb hremoves ?_)
      obtain ⟨_, _, _, hstore⟩ := hreclaims.store_eq
      obtain ⟨_, _, _, hsweep⟩ := sweep_store_eq eligible s.store
      simp only [hstore, hsweep]
      exact hbackends

/-- A collection that follows a current plan leaves only what the protected set needs. -/
theorem GcRan.collected (hb : b.Lawful env.hash view) (hremoves : b.Removes view)
    (hapart : BlobsApart env.hash C) (hclock : ∀ n, env.clock n = present)
    (hs : Tidy env.hash b view C s) (hfiled : WellKeyed s.store)
    (hplan : PlanCurrent env present s.store) (h : GcRan env s s') {retained : List CheckpointId}
    (hretained : ∀ id, id ∈ retained ↔ ProtectedAt env present s'.store id) :
    Collected view retained s' := by
  have hs' := h.tidy hb hremoves hs
  have hkept : ∀ {id}, ProtectedAt env present s.store id → id ∈ retained :=
    fun hid => (hretained _).mpr (h.protected_of hclock hid)
  have hentry : ∀ d, s'.store.dedup.find d ≠ none →
      ∃ cd, ChunkOf s'.store retained cd ∧ cd.digest = d := by
    intro d hd
    obtain ⟨bd, hblob, rfl⟩ := (hs'.linked.blob_iff d).mpr hd
    rcases h.kept_blob hb hremoves hclock hs.backends hfiled hplan hblob with
      ⟨id, rec, hid, hfind, cd, hcd, hblobId⟩ | hcount
    · -- The chunk has the identity of the blob, so it has its digest.
      have hfind' := (h.find_protected hclock hid).trans hfind
      refine ⟨cd, ⟨id, hkept hid, rec, hfind', hcd⟩, ?_⟩
      rw [hs.keyed.chunks id rec hfind cd hcd] at hblobId
      exact (hs.chunks id rec hfind cd hcd).eq_of_blob_id hapart (hs'.linked.digest_of hd) hblobId
    · -- The checkpoint that is counted has not been deleted, so it is protected.
      obtain ⟨id, rec, hfind, hlive, cd, hcd, hdigest⟩ := hs'.live_chunk hcount
      refine ⟨cd, ⟨id, ?_, rec, hfind, hcd⟩, hdigest⟩
      by_contra hnot
      have hlifecycle := h.lifecycle_of_unprotected hclock (fun hid => hnot (hkept hid)) hfind
      rcases hs'.lifecycles id rec hfind with hcommitted | hretired | hdeleted
      · exact hlifecycle.1 hcommitted
      · exact hlifecycle.2 hretired
      · exact hlive hdeleted
  constructor
  · intro bid bd hfind
    have hbid := hs'.keyed.blobs bid bd hfind
    obtain ⟨cd, hcd, hdigest⟩ := hentry bd.digest (hs'.linked.entry_of_blob hbid hfind)
    refine ⟨cd, hcd, ?_, hdigest⟩
    obtain ⟨id, _, rec, hrec, hin⟩ := hcd
    rw [hs'.keyed.chunks id rec hrec cd hin, hdigest, hbid]
  · exact fun d e hfind => hentry d (by simp [hfind])
  · exact fun d x hx => hentry d ((hs'.linked.object_iff d).mp (by simp [hx]))
  · exact fun id rec hfind hnot =>
      h.lifecycle_of_unprotected hclock (fun hid => hnot (hkept hid)) hfind

/-- When removing succeeds, a `gc_run` returns. -/
theorem gc_run_returns (hb : b.Lawful env.hash view) (hremoves : b.Removes view)
    (hbackends : ∀ id b', s.store.backends.find id = some b' → b' = b) :
    ∃ result s', gcRun env s = .ok result s' ∧ GcRan env s s' := by
  refine ((post_gc_run_outcomes env s).mono (fun _ _ h => h.ran) fun _ s' h => ?_).returns
  obtain ⟨_, reachable, bid, s₁, hsame, hthrew⟩ := h
  refine not_reclaim_threw hb hremoves ?_ hthrew
  rw [hsame]
  exact hbackends

/-- A `gc_run` without eligible checkpoints and with an empty plan does nothing. -/
theorem gc_run_idle (hclock : ∀ n, env.clock n = present)
    (hplan : s.store.gc.reclaimableBlobs = [])
    (hlifecycles : ∀ id rec, s.store.checkpoints.find id = some rec →
      ¬ ProtectedAt env present s.store id → rec.lifecycle ≠ .committed ∧
        rec.lifecycle ≠ .retired) :
    ∃ result s', gcRun env s = .ok result s' ∧ result.reclaimedBlobs = [] ∧
      result.reclaimedBytes = 0 ∧ SameHoldings view s s' := by
  refine Post.returns ?_
  simp only [gcRun, post_bind, post_get, post_modify_store, post_pure]
  refine (returns_gc_eligible_checkpoints env).post fun eligible s₁ heligible hs₁ => ?_
  refine (returns_compute_protected_set env).post fun retained s₂ _ hs₂ => ?_
  obtain ⟨n, rfl⟩ := trans_of ClockOnly hs₁ hs₂
  obtain rfl : eligible = [] := by
    refine List.eq_nil_iff_forall_not_mem.mpr fun id hin => ?_
    obtain ⟨rec, hfind, hlifecycle, hnot⟩ :=
      (mem_gc_eligible_iff (verdict_fixed_clock hclock s.store) heligible id).mp hin
    rcases hlifecycle with hcommitted | hretired
    · exact (hlifecycles id rec hfind hnot).1 hcommitted
    · exact (hlifecycles id rec hfind hnot).2 hretired
  simp only [hplan]
  exact ⟨rfl, rfl, rfl, rfl, rfl, rfl⟩

/-- Once everything is collected, another round has nothing to do. -/
theorem Collected.idle (hclock : ∀ n, env.clock n = present) (hfiled : WellKeyed s.store)
    {retained : List CheckpointId}
    (hretained : ∀ id, id ∈ retained ↔ ProtectedAt env present s.store id)
    (h : Collected view retained s) :
    ∃ plan s₁ result s₂, gcPlan env s = .ok plan s₁ ∧ gcRun env s₁ = .ok result s₂ ∧
      result.reclaimedBlobs = [] ∧ result.reclaimedBytes = 0 ∧ SameHoldings view s s₂ := by
  obtain ⟨plan, s₁, hrun, hplanned⟩ := (post_gc_plan env s).returns
  have hcurrent := hplanned.current hclock hfiled
  have hnone : s₁.store.gc.reclaimableBlobs = [] := by
    refine List.eq_nil_iff_forall_not_mem.mpr fun bid hin => ?_
    obtain ⟨hblob, hnot⟩ := (hcurrent bid).mp hin
    have hfind : ∃ bd, s.store.blobs.find bid = some bd := by
      cases hplanned with
      | intro => exact Option.ne_none_iff_exists'.mp hblob
    obtain ⟨bd, hbd⟩ := hfind
    obtain ⟨cd, ⟨id, hid, rec, hrec, hcd⟩, hblobId, _⟩ := h.blobs bid bd hbd
    exact hnot ((hplanned.reached_iff bid).mpr
      ⟨id, rec, (hretained id).mp hid, hrec, cd, hcd, hblobId⟩)
  have hlifecycles : ∀ id rec, s₁.store.checkpoints.find id = some rec →
      ¬ ProtectedAt env present s₁.store id →
      rec.lifecycle ≠ .committed ∧ rec.lifecycle ≠ .retired := by
    intro id rec hfind hnot
    rw [hplanned.protected_iff, ← hretained] at hnot
    refine h.checkpoints id rec ?_ hnot
    cases hplanned with
    | intro => exact hfind
  obtain ⟨result, s₂, hgc, hblobs, hbytes, hsame⟩ : ∃ result s₂, gcRun env s₁ = .ok result s₂ ∧
      result.reclaimedBlobs = [] ∧ result.reclaimedBytes = 0 ∧ SameHoldings view s₁ s₂ :=
    gc_run_idle hclock hnone hlifecycles
  refine ⟨plan, s₁, result, s₂, hrun, hgc, hblobs, hbytes, ?_⟩
  cases hplanned with
  | intro => exact ⟨hsame.checkpoints, hsame.dedup, hsame.blobs, hsame.objects⟩

end Collecting

/-! ## Runs -/

section Runs

variable {env : Env} {present : TimePoint} {b : IBackend W} {view : ObjectView W}

/-- Garbage collection is complete. In every state that a fresh store over one lawful backend whose
`remove` works, without blobs at the start, reaches without a failed publication or a restart, in
which different chunk contents have different blob identities: if the clock stands still, then
`gc_plan` and `gc_run` leave only what the protected set needs, and doing it again changes
nothing. -/
theorem gc_complete (hb : b.Lawful env.hash view) (hremoves : b.Removes view)
    (hclock : ∀ n, env.clock n = present) {options : StoreOptions}
    {backends : UnorderedMap StorageBackendId (IBackend W)} {w : W}
    (hbackends : ∀ id b', backends.find id = some b' → b' = b)
    (hempty : ∀ d, view.objects w (blobKey d) = none) {events : List (Event W)} {s : System W}
    (hrun : Run (Step env view.Same) (.fresh options backends w) events s)
    (hevents : ∀ e ∈ events, e.publishFails = false ∧ e.reopens = false)
    (hdistinct : ∀ x ∈ contentsOf env.hash options.chunkSize events,
      ∀ y ∈ contentsOf env.hash options.chunkSize events,
      blobIdFromDigest (env.hash.sha256 x) = blobIdFromDigest (env.hash.sha256 y) → x = y) :
    CollectsCompletely env view s := by
  let C : Bytes → Prop := (· ∈ contentsOf env.hash options.chunkSize events)
  have hapart : BlobsApart env.hash C := fun x y hx hy => hdistinct x hx y hy
  let P : System W → Prop := fun s => Tidy env.hash b view C s ∧ WellKeyed s.store ∧
    s.store.options.chunkSize = options.chunkSize
  have hkeep : ∀ {s₁ s₂ e}, P s₁ → e.publishFails = false → e.reopens = false →
      (∀ x ∈ e.contents env.hash options.chunkSize, C x) → Step env view.Same s₁ e s₂ → P s₂ := by
    rintro s₁ s₂ e ⟨hs, hfiled, hsize⟩ hfails hreopens hcontents hstep
    have htransition := step_transition (all_look_of_lawful hb hs.backends) hstep
    exact ⟨htransition.tidy hb hremoves hapart hfails hreopens (hsize ▸ hcontents) hs,
      well_keyed_step hstep.anything hfiled, (htransition.chunk_size_eq hreopens).trans hsize⟩
  have hs : P s := by
    refine Run.invariant_on (A := fun e => e ∈ events ∧ e.publishFails = false ∧ e.reopens = false)
      (fun _ s => P s) ?_ ?_ hrun fun e hin => ⟨hin, hevents e hin⟩
    · exact ⟨tidy_fresh hbackends hempty, well_keyed_create options backends, rfl⟩
    · rintro _ s₁ e s₂ _ hs₁ ⟨hin, hfails, hreopens⟩ hstep
      exact hkeep hs₁ hfails hreopens (fun x hx => List.mem_flatMap.mpr ⟨e, hin, hx⟩) hstep
  obtain ⟨plan, s₁, hplan, hplanned⟩ := (post_gc_plan env s).returns
  have hs₁ : P s₁ := by
    have hfinal : finalState (Op.gcPlan.run env s) = s₁ := by
      rw [Op.run, final_state_map, hplan, final_state_ok]
    have hstep := Step.of_final (R := view.Same) hfinal
    exact hkeep hs rfl rfl (by simp [Event.contents, Event.publication]) hstep
  obtain ⟨result, s₂, hgc, hran⟩ := gc_run_returns hb hremoves hs₁.1.backends
  have hs₂ : P s₂ := by
    have hfinal : finalState (Op.gcRun.run env s₁) = s₂ := by
      rw [Op.run, final_state_map, hgc, final_state_ok]
    have hstep := Step.of_final (R := view.Same) hfinal
    exact hkeep hs₁ rfl rfl (by simp [Event.contents, Event.publication]) hstep
  obtain ⟨retained, t, hretained, _⟩ := returns_compute_protected_set env s₂
  have hmem : ∀ id, id ∈ retained ↔ ProtectedAt env present s₂.store id :=
    mem_protected_set_clock hclock (refl_of ClockOnly s₂) hretained
  have hcollected := hran.collected hb hremoves hapart hclock hs₁.1 hs₁.2.1
    (hplanned.current hclock hs.2.1) hmem
  exact ⟨plan, s₁, result, s₂, hplan, hgc, ⟨retained, t, hretained, hcollected⟩,
    hcollected.idle hclock hs₂.2.1 hmem⟩

end Runs

/-- Two checkpoints that share a chunk; the older one is retired. -/
def sharedThenRetired : List (Op MemoryWorld) := [
  .createFamily,
  .publish (sampleDescriptor 7 1 3) [0, 1, 0],
  .publish (sampleDescriptor 8 2 1) [1],
  .retire ⟨7⟩]

/-- Two checkpoints share chunks, and one is retired. -/
theorem gc_complete_shared_then_retired :
    CollectsCompletely (sampleEnv tagHash) MemoryWorld.view
      (sampleRun tagHash [] sharedThenRetired) :=
  gc_complete (memory_backend_lawful tagHash) (memory_backend_removes tagHash) (fun _ => rfl)
    (fun _ _ => sample_backends tagHash) (fun _ => rfl)
    (run_calls (sampleEnv tagHash) MemoryWorld.view.Same (sampleSystem tagHash [])
      sharedThenRetired)
    (by decide +kernel) (by decide +kernel)

/-- Two chunks whose digests start with the words 0 and 1 share a blob identity, so only one of
them has a blob. When their checkpoint is collected, entry and object of the other one stay. -/
theorem gc_incomplete_with_shared_blob_id :
    ∃ events s, Run (Step (sampleEnv sentinelHash) MemoryWorld.view.Same)
        (sampleSystem sentinelHash []) events s ∧
      (∀ e ∈ events, e.publishFails = false ∧ e.reopens = false) ∧
      (∀ x ∈ contentsOf sentinelHash 1 events, ∀ y ∈ contentsOf sentinelHash 1 events,
        leadingWord (sentinelHash.sha256 x) = leadingWord (sentinelHash.sha256 y) → x = y) ∧
      ¬ CollectsCompletely (sampleEnv sentinelHash) MemoryWorld.view s := by
  let ops : List (Op MemoryWorld) :=
    [.createFamily, .publish (sampleDescriptor 7 1 2) [0, 1], .retire ⟨7⟩]
  let env := sampleEnv sentinelHash
  refine ⟨_, _, run_calls env _ _ ops, by decide +kernel, by decide +kernel, ?_⟩
  let s := sampleRun sentinelHash [] ops
  have hleft : let s₂ := finalState (gcRun env (finalState (gcPlan env s)))
      (returned (computeProtectedSet env s₂) = some []) ∧
        (s₂.store.dedup.find (sentinelHash.sha256 [1])).isSome = true := by
    decide +kernel
  rintro ⟨plan, s₁, result, s₂, hplan, hgc, ⟨retained, t, hretained, hcollected⟩, _⟩
  have hfinal : finalState (gcRun env (finalState (gcPlan env s))) = s₂ := by
    rw [show gcPlan env s = .ok plan s₁ from hplan, final_state_ok, hgc, final_state_ok]
  dsimp only at hleft
  rw [hfinal, hretained] at hleft
  obtain ⟨hnone, hentry⟩ := hleft
  obtain ⟨e, he⟩ := Option.isSome_iff_exists.mp hentry
  obtain ⟨cd, ⟨id, hid, _⟩, _⟩ := hcollected.entries _ _ he
  cases hnone
  simp at hid

end CheckpointStore
