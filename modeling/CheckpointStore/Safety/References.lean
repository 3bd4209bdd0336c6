import CheckpointStore.Runs.Operations

/-!
# Reference counts

`liveReferences` counts, with repetition, the chunks with a given digest over all checkpoints
that have not been deleted. The first part says how each transition changes that number and the
dedup table's own count. From it follows `refcounts_exact`: as long as no publication fails and
every shared blob verifies, the two are equal, for any backends and any changes to their world.
-/

namespace CheckpointStore

open Foundation Foundation.Procedure

variable {W : Type}

/-- How many of the chunks have the digest. -/
def countDigest (d : Digest) (chunks : List ChunkDescriptor) : Nat :=
  chunks.countP fun cd => cd.digest = d

/-- The references of one checkpoint to a digest; a deleted checkpoint has none. -/
def CheckpointRecord.references (rec : CheckpointRecord) (d : Digest) : Nat :=
  if rec.lifecycle = .deleted then 0 else countDigest d rec.chunks

/-- The references of all checkpoints to a digest. -/
def liveReferences (store : Store W) (d : Digest) : Nat :=
  store.checkpoints.sumBy fun _ rec => rec.references d

/-! ## Live references -/

/-- The references depend on the content of a record only. -/
theorem references_content (rec : CheckpointRecord) (d : Digest) :
    rec.references d = rec.content.references d := by
  have hchunks : countDigest d (rec.chunks.map ChunkDescriptor.content) =
      countDigest d rec.chunks := by
    unfold countDigest
    rw [List.countP_map]
    rfl
  unfold CheckpointRecord.references
  rw [show rec.content.chunks = rec.chunks.map ChunkDescriptor.content from rfl, hchunks]
  have hdeleted : rec.content.lifecycle = .deleted ↔ rec.lifecycle = .deleted := by
    show rec.lifecycle.content = .deleted ↔ _
    cases rec.lifecycle <;> simp [CheckpointLifecycle.content]
  simp only [hdeleted]

theorem live_references_quiet {R : W → W → Prop} {s s' : System W} (h : SameContent R s s')
    (d : Digest) : liveReferences s'.store d = liveReferences s.store d :=
  UnorderedMap.sum_by_eq_of_map_find_eq h.checkpoints
    (g := fun _ content => content.references d) fun _ rec => references_content rec d

theorem refcount_quiet {R : W → W → Prop} {s s' : System W} (h : SameContent R s s') (d : Digest) :
    s'.store.dedup.refcount d = s.store.dedup.refcount d := by
  unfold DedupTable.refcount
  rw [h.dedup d]

/-- A committed checkpoint adds the references of its chunks. -/
theorem live_references_commit {descriptor : CheckpointDescriptor} {data : Bytes}
    {l : PublishLocals} {manifest : CheckpointManifest} {store : Store W}
    (hfresh : store.checkpoints.find descriptor.id = none) (d : Digest) :
    liveReferences (commitRecord descriptor data l manifest store) d =
      countDigest d l.chunkDescriptors + liveReferences store d := by
  show (store.checkpoints.emplace descriptor.id (newRecord descriptor manifest l)).sumBy _ = _
  rw [UnorderedMap.emplace_of_find_none hfresh, UnorderedMap.sum_by_assign_fresh hfresh]
  rfl

/-! ## Sweeping -/

/-- Releasing a list of chunks takes one reference for each, down to zero. -/
theorem refcount_release_chunks (chunks : List ChunkDescriptor) (t : DedupTable) (d : Digest) :
    ((releaseChunks chunks t).refcount d).toNat = (t.refcount d).toNat - countDigest d chunks := by
  unfold releaseChunks countDigest
  induction chunks generalizing t with
  | nil => rfl
  | cons cd rest ih =>
      rw [List.foldl_cons, ih, DedupTable.refcount_release_reference]
      by_cases hd : d = cd.digest
      · rw [if_pos hd, List.countP_cons_of_pos (by simpa using hd.symm), hd]
        omega
      · rw [if_neg hd, List.countP_cons_of_neg (by simpa using Ne.symm hd)]

/-- Sweeping one checkpoint takes its references from the table and from the live count. -/
theorem sweep_checkpoint_references (store : Store W) (cid : CheckpointId) (d : Digest) :
    ∃ n, liveReferences (sweepCheckpoint store cid) d + n = liveReferences store d ∧
      ((sweepCheckpoint store cid).dedup.refcount d).toNat =
        (store.dedup.refcount d).toNat - n := by
  unfold sweepCheckpoint
  cases hfind : store.checkpoints.find cid with
  | none => exact ⟨0, rfl, rfl⟩
  | some rec =>
      by_cases hswept : rec.lifecycle = .gcEligible ∨ rec.lifecycle = .deleted
      · simp only [hswept, if_true]
        exact ⟨0, rfl, rfl⟩
      · simp only [hswept, if_false]
        have hlive : rec.lifecycle ≠ .deleted := fun h => hswept (Or.inr h)
        refine ⟨countDigest d rec.chunks, ?_, refcount_release_chunks _ _ _⟩
        have hsum := UnorderedMap.sum_by_modify hfind
          (fun rec => { rec with lifecycle := .deleted }) fun _ rec => rec.references d
        rw [show rec.references d = countDigest d rec.chunks from if_neg hlive] at hsum
        exact hsum

/-- A sweep takes the same number of references from the table, down to zero, and from the live
count. -/
theorem sweep_references (eligible : List CheckpointId) (store : Store W) (d : Digest) :
    ∃ n, liveReferences (sweep eligible store) d + n = liveReferences store d ∧
      ((sweep eligible store).dedup.refcount d).toNat = (store.dedup.refcount d).toNat - n := by
  unfold sweep
  induction eligible generalizing store with
  | nil => exact ⟨0, rfl, rfl⟩
  | cons cid rest ih =>
      rw [List.foldl_cons]
      obtain ⟨n, hlive, hcount⟩ := sweep_checkpoint_references store cid d
      obtain ⟨m, hlive', hcount'⟩ := ih (sweepCheckpoint store cid)
      exact ⟨n + m, by omega, by omega⟩

/-- An entry without its count. -/
def DedupEntry.uncounted (e : DedupEntry) : DedupEntry := { e with refcount := 0 }

theorem find_release_chunks (chunks : List ChunkDescriptor) (t : DedupTable) (d : Digest) :
    ((releaseChunks chunks t).find d).map DedupEntry.uncounted =
      (t.find d).map DedupEntry.uncounted := by
  unfold releaseChunks
  induction chunks generalizing t with
  | nil => rfl
  | cons cd rest ih =>
      rw [List.foldl_cons, ih, DedupTable.find_release_reference]
      by_cases hd : d = cd.digest
      · rw [if_pos hd, hd, Option.map_map]
        rfl
      · rw [if_neg hd]

/-- A sweep changes the entries of the table in their counts only. -/
theorem sweep_entries (eligible : List CheckpointId) (store : Store W) (d : Digest) :
    ((sweep eligible store).dedup.find d).map DedupEntry.uncounted =
      (store.dedup.find d).map DedupEntry.uncounted := by
  unfold sweep
  induction eligible generalizing store with
  | nil => rfl
  | cons cid rest ih =>
      rw [List.foldl_cons, ih]
      unfold sweepCheckpoint
      cases store.checkpoints.find cid with
      | none => rfl
      | some rec =>
          simp only
          split
          · rfl
          · exact find_release_chunks _ _ _

/-! ## Reclaiming -/

/-- Reclaiming a blob changes neither count. -/
theorem Reclaimed.references {reachable : List BlobId} {bid : BlobId} {s s' : System W}
    (h : Reclaimed reachable bid s s') (d : Digest) :
    s'.store.dedup.refcount d = s.store.dedup.refcount d ∧
      liveReferences s'.store d = liveReferences s.store d := by
  cases h with
  | deferred => exact ⟨rfl, rfl⟩
  | @forgot bd removedAny w calls hreach hfind hcount hcalls htrace =>
      refine ⟨?_, rfl⟩
      show (if removedAny then (s.store.dedup.releaseUntilOrphan bd.digest).2
        else s.store.dedup).refcount d = _
      split
      · exact DedupTable.refcount_release_until_orphan _ _ _
      · rfl

/-- Reclaiming changes no count. -/
theorem Reclaims.references {reachable bids : List BlobId} {s s' : System W}
    (h : Reclaims reachable bids s s') (d : Digest) :
    s'.store.dedup.refcount d = s.store.dedup.refcount d ∧
      liveReferences s'.store d = liveReferences s.store d := by
  induction h with
  | nil s => exact ⟨rfl, rfl⟩
  | cons hround _ ih =>
      obtain ⟨hcount, hlive⟩ := hround.references d
      exact ⟨ih.1.trans hcount, ih.2.trans hlive⟩

/-- A `gc_run` changes the counts as its sweep does. -/
theorem GcRan.references {env : Env} {s s' : System W} (h : GcRan env s s') (d : Digest) :
    ∃ eligible, s'.store.dedup.refcount d = (sweep eligible s.store).dedup.refcount d ∧
      liveReferences s'.store d = liveReferences (sweep eligible s.store) d := by
  cases h with
  | @completed eligible retained s₁ s₂ s₃ _ _ hreclaims =>
      obtain ⟨hcount, hlive⟩ := hreclaims.references d
      exact ⟨eligible, hcount, hlive⟩
  | @interrupted eligible retained s₁ s₂ s₃ s₄ done rest bid _ _ _ hreclaims hthrew =>
      obtain ⟨hcount, hlive⟩ := hreclaims.references d
      cases hthrew with
      | intro => exact ⟨eligible, hcount, hlive⟩

/-! ## Publishing -/

/-- A `verify` call in the trace answered that the object is good. -/
def Observation.Good : Observation → Prop
  | .verified _ _ answer => answer = .verified
  | .removing _ _ => True

instance : DecidablePred Observation.Good
  | .verified _ _ answer => inferInstanceAs (Decidable (answer = .verified))
  | .removing _ _ => inferInstanceAs (Decidable True)

/-- A successful `addReference` counts one more. -/
theorem refcount_add_reference {t t' : DedupTable} {d : Digest} {e : DedupEntry} {added : Bool}
    (hfind : t.find d = some e) (hadd : t.addReference d = .ok (added, t')) (d' : Digest) :
    (t'.refcount d').toNat = (t.refcount d').toNat + if d' = d then 1 else 0 := by
  obtain ⟨hmax, hfind'⟩ := DedupTable.add_reference_cases hfind hadd
  unfold DedupTable.refcount
  rw [hfind' d']
  by_cases hd : d' = d
  · subst hd
    have hlt : e.refcount.toNat + 1 < 2 ^ 64 := by
      have hbound := e.refcount.toNat_lt
      have hne : e.refcount.toNat ≠ DedupTable.maxRefcount.toNat :=
        fun h => hmax (UInt64.toNat_inj.mp h)
      have hval : DedupTable.maxRefcount.toNat = 2 ^ 64 - 1 := rfl
      omega
    simp only [hfind, if_true, UInt64.toNat_add, UInt64.toNat_one]
    exact Nat.mod_eq_of_lt hlt
  · simp [hd]

/-- Entering an absent digest counts one. -/
theorem refcount_insert_absent {t t' : DedupTable} {id : BlobId} {d : Digest} {size : UInt64}
    {integrity : IntegrityState} {generation : BlobGeneration} {added : Bool}
    (hfind : t.find d = none) (hinsert : t.insert id d size integrity generation = .ok (added, t'))
    (d' : Digest) :
    (t'.refcount d').toNat = (t.refcount d').toNat + if d' = d then 1 else 0 := by
  rcases DedupTable.insert_cases hinsert with ⟨_, hfind'⟩ | ⟨e, hsome, _⟩
  · unfold DedupTable.refcount
    rw [hfind' d']
    by_cases hd : d' = d
    · subst hd
      simp [hfind]
    · simp [hd]
  · rw [hfind] at hsome
    simp at hsome

section Rounds

variable {underlay : IBackend W} {slice : ChunkSlice}

theorem Missed.trace_extends {s s' : System W} (h : Missed underlay slice s s') :
    ∃ more, s'.trace = s.trace ++ more := by
  cases h with
  | absent => exact ⟨[], by simp⟩
  | damaged => exact ⟨_, rfl⟩

theorem Acquired.trace_extends {p q : Publishing W} {blobId : BlobId}
    (h : Acquired underlay slice p blobId q) :
    ∃ more, q.system.trace = p.system.trace ++ more := by
  cases h with
  | reused => exact ⟨_, rfl⟩
  | written hmissed => exact hmissed.trace_extends

/-- When every verification in the trace was good, acquiring a chunk counts it once. -/
theorem Acquired.refcount {p q : Publishing W} {blobId : BlobId}
    (h : Acquired underlay slice p blobId q) (hgood : ∀ o ∈ q.system.trace, o.Good)
    (d : Digest) :
    (q.system.store.dedup.refcount d).toNat =
      (p.system.store.dedup.refcount d).toNat + if d = slice.digest then 1 else 0 := by
  cases h with
  | reused hfind _ hadd => exact refcount_add_reference hfind hadd d
  | written hmissed _ _ hinsert =>
      cases hmissed with
      | absent hfind => exact refcount_insert_absent hfind hinsert d
      | @damaged e answer w c hfind hsize hverify hanswer =>
          exact absurd (hgood (.verified (blobKey slice.digest) slice.digest answer) (by simp))
            hanswer

/-- Recording a chunk counts its digest once more. -/
theorem count_record_chunk {p q : Publishing W} {blobId : BlobId}
    (h : Acquired underlay slice p blobId q) (d : Digest) :
    countDigest d (recordChunk slice blobId q).locals.chunkDescriptors =
      countDigest d p.locals.chunkDescriptors + if d = slice.digest then 1 else 0 := by
  show countDigest d (q.locals.chunkDescriptors ++ [newChunk slice blobId _]) = _
  rw [h.locals_eq.1]
  unfold countDigest
  rw [List.countP_append, List.countP_singleton]
  by_cases hd : d = slice.digest
  · simp [newChunk, hd]
  · simp [newChunk, hd, Ne.symm hd]

theorem Rounds.trace_extends {slices : List ChunkSlice} {p p' : Publishing W}
    (h : Rounds underlay slices p p') : ∃ more, p'.system.trace = p.system.trace ++ more := by
  induction h with
  | nil p => exact ⟨[], by simp⟩
  | cons hacquired _ ih =>
      obtain ⟨more, hmore⟩ := hacquired.trace_extends
      obtain ⟨rest, hrest⟩ := ih
      exact ⟨more ++ rest, by rw [hrest, ← List.append_assoc, ← hmore]; rfl⟩

/-- When every verification in the trace was good, the table counts every chunk that the
rounds record. -/
theorem Rounds.refcount {slices : List ChunkSlice} {p p' : Publishing W}
    (h : Rounds underlay slices p p') (hgood : ∀ o ∈ p'.system.trace, o.Good) (d : Digest) :
    (p'.system.store.dedup.refcount d).toNat + countDigest d p.locals.chunkDescriptors =
      (p.system.store.dedup.refcount d).toNat + countDigest d p'.locals.chunkDescriptors := by
  induction h with
  | nil p => rfl
  | @cons slice rest p q p' blobId hacquired hrest ih =>
      have hlater := ih hgood
      obtain ⟨more, hmore⟩ := hrest.trace_extends
      have hround := hacquired.refcount (fun o ho => hgood o (by
        rw [hmore]
        exact List.mem_append_left _ ho)) d
      have hrecorded := count_record_chunk hacquired d
      have hdedup : (recordChunk slice blobId q).system.store.dedup = q.system.store.dedup := rfl
      rw [hdedup] at hlater
      omega

end Rounds

/-- A publication adds the references of the chunks it has recorded. -/
theorem Rounds.live_references {env : Env} {underlay : IBackend W} {slices : List ChunkSlice}
    {s : System W} {p : Publishing W} {descriptor : CheckpointDescriptor} {data : Bytes}
    (h : Rounds underlay slices (.start s) p)
    (hfresh : s.store.checkpoints.find descriptor.id = none) (d : Digest) :
    liveReferences (publishedStore env descriptor data p) d =
      countDigest d p.locals.chunkDescriptors + liveReferences s.store d := by
  obtain ⟨_, _, _, _, _, hstore⟩ := h.store_eq
  have hsame : p.system.store.checkpoints = s.store.checkpoints := by
    rw [hstore]
    rfl
  unfold publishedStore
  rw [live_references_commit (by rw [hsame]; exact hfresh)]
  unfold liveReferences
  rw [hsame]

/-- When every verification in the trace was good, a publication keeps the counts equal. -/
theorem Published.references {env : Env} {descriptor : CheckpointDescriptor} {data : Bytes}
    {s s' : System W} (h : Published env descriptor data s s')
    (hgood : ∀ o ∈ s'.trace, o.Good) (d : Digest)
    (heq : (s.store.dedup.refcount d).toNat = liveReferences s.store d) :
    (s'.store.dedup.refcount d).toNat = liveReferences s'.store d := by
  cases h with
  | @intro underlay slices p w hadmitted _ hrounds _ _ =>
      have hcount := hrounds.refcount hgood d
      have hstart : countDigest d (Publishing.start s).locals.chunkDescriptors = 0 := rfl
      have hdedup : (publishedStore env descriptor data p).dedup = p.system.store.dedup := rfl
      have hbefore : (Publishing.start s).system.store.dedup = s.store.dedup := rfl
      show ((publishedStore env descriptor data p).dedup.refcount d).toNat = _
      rw [hrounds.live_references hadmitted.fresh, hdedup]
      rw [hstart, hbefore] at hcount
      omega

/-! ## Runs -/

theorem Reclaims.trace_extends {reachable bids : List BlobId} {s s' : System W}
    (h : Reclaims reachable bids s s') : ∃ more, s'.trace = s.trace ++ more := by
  induction h with
  | nil s => exact ⟨[], by simp⟩
  | cons hround _ ih =>
      obtain ⟨rest, hrest⟩ := ih
      cases hround with
      | deferred => exact ⟨rest, hrest⟩
      | @forgot _ _ _ calls => exact ⟨calls ++ rest, by rw [hrest, ← List.append_assoc]⟩

theorem GcRan.trace_extends {env : Env} {s s' : System W} (h : GcRan env s s') :
    ∃ more, s'.trace = s.trace ++ more := by
  cases h with
  | completed heligible hretained hreclaims =>
      obtain ⟨_, rfl⟩ := protected_sets_clock_only heligible hretained
      exact hreclaims.trace_extends
  | interrupted heligible hretained _ hreclaims hthrew =>
      obtain ⟨_, rfl⟩ := protected_sets_clock_only heligible hretained
      obtain ⟨more, hmore⟩ := hreclaims.trace_extends
      cases hthrew with
      | @intro _ _ _ _ _ calls =>
          exact ⟨more ++ calls, by rw [← List.append_assoc, ← hmore]⟩

/-- The trace only grows. -/
theorem Transition.trace_extends {env : Env} {R : W → W → Prop} {s s' : System W} {e : Event W}
    (h : Transition env R s e s') (hfails : e.publishFails = false) (hreopens : e.reopens = false) :
    ∃ more, s'.trace = s.trace ++ more := by
  cases h with
  | quiet _ h => exact h.trace
  | published h =>
      cases h with
      | intro _ _ hrounds => exact hrounds.trace_extends
  | publishFailed => simp [Event.publishFails] at hfails
  | gcRan h => exact h.trace_extends
  | reopened => simp [Event.reopens] at hreopens

/-- One step keeps the counts equal, unless a publication fails. -/
theorem Transition.references {env : Env} {R : W → W → Prop} {s s' : System W} {e : Event W}
    (h : Transition env R s e s') (hfails : e.publishFails = false) (hreopens : e.reopens = false)
    (hgood : ∀ o ∈ s'.trace, o.Good) (d : Digest)
    (heq : (s.store.dedup.refcount d).toNat = liveReferences s.store d) :
    (s'.store.dedup.refcount d).toNat = liveReferences s'.store d := by
  cases h with
  | quiet _ h => rw [refcount_quiet h, live_references_quiet h, heq]
  | published h => exact h.references hgood d heq
  | publishFailed => simp [Event.publishFails] at hfails
  | gcRan h =>
      obtain ⟨eligible, hcount, hlive⟩ := h.references d
      obtain ⟨n, hswept, hreleased⟩ := sweep_references eligible s.store d
      rw [hcount, hlive]
      omega
  | reopened => simp [Event.reopens] at hreopens

/-- Reference counts are exact. In every state reached from a fresh store without a failed
publication or a restart, in which every verified object was good, the table counts every digest
as often as the checkpoints that are not deleted have it. The backends, and what happens to their
world, are arbitrary. -/
theorem refcounts_exact {env : Env} {options : StoreOptions}
    {backends : UnorderedMap StorageBackendId (IBackend W)} {w : W} {events : List (Event W)}
    {s : System W} (hrun : Run (Step env Anything) (.fresh options backends w) events s)
    (hevents : ∀ e ∈ events, e.publishFails = false ∧ e.reopens = false)
    (hgood : ∀ o ∈ s.trace, o.Good) (d : Digest) :
    (s.store.dedup.refcount d).toNat = liveReferences s.store d := by
  -- The condition on the trace is part of the invariant, because traces only grow.
  refine Run.invariant_on (fun _ s => (∀ o ∈ s.trace, o.Good) →
    (s.store.dedup.refcount d).toNat = liveReferences s.store d) ?_ ?_ hrun hevents hgood
  · intro _
    rfl
  · intro _ s e s' _ ih hevent hstep hgood'
    have htransition := step_transition (all_look_anything s) hstep
    obtain ⟨more, hmore⟩ := htransition.trace_extends hevent.1 hevent.2
    refine htransition.references hevent.1 hevent.2 hgood' d (ih fun o ho => hgood' o ?_)
    rw [hmore]
    exact List.mem_append_left _ ho

/-- Three published chunks with one content, of which the collection of the older checkpoint
releases two. -/
def sharedThenCollected : List (Op MemoryWorld) := [
  .createFamily,
  .publish (sampleDescriptor 7 1 2) [0, 0],
  .publish (sampleDescriptor 8 2 1) [0],
  .retire ⟨7⟩,
  .gcPlan,
  .gcRun]

/-- Shared chunks after a collection. -/
theorem refcounts_exact_shared_then_collected :
    let s := sampleRun tagHash [] sharedThenCollected
    liveReferences s.store (tagHash.sha256 [0]) = 1 ∧
      (s.store.dedup.refcount (tagHash.sha256 [0])).toNat = 1 := by
  intro s
  have hlive : liveReferences s.store (tagHash.sha256 [0]) = 1 := by decide +kernel
  have hrun := run_calls (sampleEnv tagHash) Anything (sampleSystem tagHash []) sharedThenCollected
  have hcount := refcounts_exact hrun (by decide +kernel) (by decide +kernel) (tagHash.sha256 [0])
  exact ⟨hlive, hcount.trans hlive⟩

end CheckpointStore
