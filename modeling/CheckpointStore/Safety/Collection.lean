import CheckpointStore.Safety.Stock

/-!
# Garbage collection and protected checkpoints

Blobs are identified by a 64-bit prefix of their digest while objects and dedup entries are
keyed by the whole digest. `Keyed` says that identities and digests belong together. In such a
state `gc_run` touches nothing that a checkpoint in the protected set refers to, whatever the
reference counts and the planned list of blobs are (`gc_run_keeps_protected`); and every
operation keeps a store keyed, so it does not matter what happened since the plan was made.
-/

namespace CheckpointStore

open Foundation Foundation.Procedure

variable {W : Type}

/-- Chunks and blobs are identified by their digest. -/
structure Keyed (store : Store W) : Prop where
  chunks : ∀ id rec, store.checkpoints.find id = some rec → ∀ cd ∈ rec.chunks,
    cd.blobId = blobIdFromDigest cd.digest
  blobs : ∀ bid bd, store.blobs.find bid = some bd → bid = blobIdFromDigest bd.digest

/-- The entries of the dedup table are identified by their digest. -/
def EntriesKeyed (t : DedupTable) : Prop :=
  ∀ d e, t.find d = some e → e.blobId = blobIdFromDigest d

/-- What `gc_run` leaves alone in this state: for every chunk of a checkpoint in the protected
set it computes, no `remove` is called with the key of the chunk, its blob stays in the blob table
as it is, and its entry in the dedup table changes in its count at most. -/
def GcKeepsProtected (env : Env) (s : System W) : Prop :=
  ∀ eligible retained s₁ s₂, gcEligibleCheckpoints env s = .ok eligible s₁ →
    computeProtectedSet env s₁ = .ok retained s₂ →
    ∀ rec ∈ s.store.checkpoints.values, rec.descriptor.id ∈ retained → ∀ cd ∈ rec.chunks,
      let s' := finalState (gcRun env s)
      (∃ more, s'.trace = s.trace ++ more ∧ ∀ id, .removing id (blobKey cd.digest) ∉ more) ∧
      s'.store.blobs.find cd.blobId = s.store.blobs.find cd.blobId ∧
      (s'.store.dedup.find cd.digest).map DedupEntry.uncounted =
        (s.store.dedup.find cd.digest).map DedupEntry.uncounted

/-! ## One collection -/

section Reclaiming

variable {reachable : List BlobId} {bid : BlobId} {d : Digest} {s s' : System W}

/-- The calls for a blob with another digest do not touch the key of `d`. -/
theorem RemovalsOf.not_removing {d' : Digest} {calls : List Observation}
    (h : RemovalsOf (blobKey d') calls) (hne : d' ≠ d) (id : StorageBackendId) :
    .removing id (blobKey d) ∉ calls := by
  intro hin
  obtain ⟨id', hid'⟩ := h _ hin
  simp only [Observation.removing.injEq] at hid'
  exact hne (blob_key_injective hid'.2.symm)

/-- A reachable blob and its entry are left alone, and so are all blobs with its digest, because
they have the same identity. -/
structure Spares (d : Digest) (s s' : System W) : Prop where
  trace : ∃ more, s'.trace = s.trace ++ more ∧ ∀ id, .removing id (blobKey d) ∉ more
  blob : s'.store.blobs.find (blobIdFromDigest d) = s.store.blobs.find (blobIdFromDigest d)
  entry : s'.store.dedup.find d = s.store.dedup.find d

theorem Spares.refl (d : Digest) (s : System W) : Spares d s s :=
  ⟨⟨[], by simp, by simp⟩, rfl, rfl⟩

theorem Spares.trans {s₁ : System W} (h : Spares d s s₁) (h' : Spares d s₁ s') :
    Spares d s s' := by
  obtain ⟨more, hmore, hnot⟩ := h.trace
  obtain ⟨more', hmore', hnot'⟩ := h'.trace
  refine ⟨⟨more ++ more', by rw [hmore', hmore, List.append_assoc], fun id hin => ?_⟩,
    h'.blob.trans h.blob, h'.entry.trans h.entry⟩
  rcases List.mem_append.mp hin with hin | hin
  · exact hnot id hin
  · exact hnot' id hin

/-- A blob that is reclaimed has another digest than any reachable blob. -/
theorem digest_ne_of_not_reachable {bd : BlobDescriptor}
    (hblobs : ∀ bid bd, s.store.blobs.find bid = some bd → bid = blobIdFromDigest bd.digest)
    (hreachable : blobIdFromDigest d ∈ reachable) (hnot : bid ∉ reachable)
    (hfind : s.store.blobs.find bid = some bd) : bd.digest ≠ d := by
  intro hd
  rw [hblobs bid bd hfind, hd] at hnot
  exact hnot hreachable

/-- A round spares a reachable digest. -/
theorem Reclaimed.spares
    (hblobs : ∀ bid bd, s.store.blobs.find bid = some bd → bid = blobIdFromDigest bd.digest)
    (hreachable : blobIdFromDigest d ∈ reachable) (h : Reclaimed reachable bid s s') :
    Spares d s s' := by
  cases h with
  | deferred => exact .refl d s
  | @forgot bd removedAny w calls hnot hfind hcount hcalls htrace =>
      have hne := digest_ne_of_not_reachable hblobs hreachable hnot hfind
      refine ⟨⟨calls, rfl, htrace.not_removing hne⟩, ?_, ?_⟩
      · show (s.store.blobs.erase bid).find (blobIdFromDigest d) = _
        rw [UnorderedMap.find_erase, if_neg fun hid : blobIdFromDigest d = bid =>
          hnot (hid ▸ hreachable)]
      · show (if removedAny then (s.store.dedup.releaseUntilOrphan bd.digest).2
          else s.store.dedup).find d = _
        split
        · rw [DedupTable.find_release_until_orphan, if_neg fun h => hne h.1.symm]
        · rfl

theorem ReclaimThrew.spares
    (hblobs : ∀ bid bd, s.store.blobs.find bid = some bd → bid = blobIdFromDigest bd.digest)
    (hreachable : blobIdFromDigest d ∈ reachable) (h : ReclaimThrew reachable bid s s') :
    Spares d s s' := by
  cases h with
  | @intro bd asked removedAny w₁ w calls id b exn hnot hfind hcount hcalls hbackend hthrow
    htrace =>
      have hne := digest_ne_of_not_reachable hblobs hreachable hnot hfind
      exact ⟨⟨calls, rfl, htrace.not_removing hne⟩, rfl, rfl⟩

/-- Reclaiming only ever shortens the blob table. -/
theorem Reclaimed.find_blob (h : Reclaimed reachable bid s s') {bid' : BlobId}
    {bd : BlobDescriptor} (hfind : s'.store.blobs.find bid' = some bd) :
    s.store.blobs.find bid' = some bd := by
  cases h with
  | deferred => exact hfind
  | forgot =>
      have hfind' : (s.store.blobs.erase bid).find bid' = some bd := hfind
      rw [UnorderedMap.find_erase] at hfind'
      split at hfind'
      · simp at hfind'
      · exact hfind'

/-- So does the loop. -/
theorem Reclaims.spares {bids : List BlobId}
    (hblobs : ∀ bid bd, s.store.blobs.find bid = some bd → bid = blobIdFromDigest bd.digest)
    (hreachable : blobIdFromDigest d ∈ reachable) (h : Reclaims reachable bids s s') :
    Spares d s s' := by
  induction h with
  | nil s => exact .refl d s
  | cons hround _ ih =>
      exact (hround.spares hblobs hreachable).trans
        (ih fun bid bd hfind => hblobs bid bd (hround.find_blob hfind))

theorem Reclaims.find_blob {bids : List BlobId} (h : Reclaims reachable bids s s')
    {bid' : BlobId} {bd : BlobDescriptor} (hfind : s'.store.blobs.find bid' = some bd) :
    s.store.blobs.find bid' = some bd := by
  induction h with
  | nil s => exact hfind
  | cons hround _ ih => exact hround.find_blob (ih hfind)

/-- A blob that was to be reclaimed and is still there is counted. -/
theorem Reclaims.counted_of_kept {bids : List BlobId}
    (h : Reclaims reachable bids s s') (hin : bid ∈ bids) (hnot : bid ∉ reachable)
    {bd : BlobDescriptor} (hfind : s'.store.blobs.find bid = some bd) :
    s'.store.dedup.refcount bd.digest ≠ 0 := by
  induction h with
  | nil => simp at hin
  | @cons bid' rest s s₁ s' hround hrest ih =>
      by_cases hlater : bid ∈ rest
      · exact ih hlater hfind
      · obtain rfl : bid = bid' := by simpa [hlater] using hin
        have hfind₁ := hrest.find_blob hfind
        rw [(hrest.references bd.digest).1]
        cases hround with
        | deferred hreason =>
            rcases hreason with hreach | hnone | ⟨bd', hfind', hcount⟩
            · exact absurd hreach hnot
            · rw [hnone] at hfind₁
              cases hfind₁
            · rw [hfind'] at hfind₁
              cases hfind₁
              exact hcount
        | forgot =>
            have hnone : (s.store.blobs.erase bid).find bid = some bd := hfind₁
            simp [UnorderedMap.find_erase] at hnone

end Reclaiming

/-- In a keyed store `gc_run` keeps what the protected checkpoints refer to. -/
theorem Keyed.gc_keeps_protected {env : Env} {s : System W} (hkeyed : Keyed s.store) :
    GcKeepsProtected env s := by
  intro eligible retained s₁ s₂ heligible hretained rec hrec hprotected cd hcd s'
  have hran : GcRan env s s' :=
    post_final (P := fun _ s' => GcRan env s s') (post_gc_run env s)
  clear_value s'
  obtain ⟨id, hfind⟩ := UnorderedMap.mem_values.mp hrec
  have hid : cd.blobId = blobIdFromDigest cd.digest := hkeyed.chunks id rec hfind cd hcd
  have hreachable : blobIdFromDigest cd.digest ∈
      computeReachable s.store.checkpoints.values retained :=
    mem_compute_reachable.mpr ⟨rec, hrec, hprotected, cd, hcd, hid⟩
  have hswept : ∀ eligible bid bd, (sweep eligible s.store).blobs.find bid = some bd →
      bid = blobIdFromDigest bd.digest := by
    intro eligible
    obtain ⟨_, _, _, hstore⟩ := sweep_store_eq eligible s.store
    rw [hstore]
    exact hkeyed.blobs
  -- The sweep changes counts only, and every reclaimed blob has another digest.
  have hspared : ∀ eligible s₃, Spares cd.digest
      { s with store := sweep eligible s.store } s₃ →
      (∃ more, s₃.trace = s.trace ++ more ∧ ∀ id, .removing id (blobKey cd.digest) ∉ more) ∧
      s₃.store.blobs.find cd.blobId = s.store.blobs.find cd.blobId ∧
      (s₃.store.dedup.find cd.digest).map DedupEntry.uncounted =
        (s.store.dedup.find cd.digest).map DedupEntry.uncounted := by
    intro eligible s₃ h
    obtain ⟨_, _, _, hstore⟩ := sweep_store_eq eligible s.store
    refine ⟨h.trace, ?_, by rw [h.entry, sweep_entries]⟩
    rw [hid, h.blob]
    show (sweep eligible s.store).blobs.find _ = _
    rw [hstore]
  cases hran with
  | @completed eligible' retained' s₁' s₂' s₃ heligible' hretained' hreclaims =>
      rw [heligible'] at heligible
      cases heligible
      rw [hretained'] at hretained
      cases hretained
      obtain ⟨_, rfl⟩ := protected_sets_clock_only heligible' hretained'
      have hspares := hreclaims.spares (hswept _) hreachable
      exact hspared eligible _ ⟨hspares.trace, hspares.blob, hspares.entry⟩
  | @interrupted eligible' retained' s₁' s₂' s₃ s₄ done rest bid heligible' hretained' hplan
      hreclaims hthrew =>
      rw [heligible'] at heligible
      cases heligible
      rw [hretained'] at hretained
      cases hretained
      obtain ⟨_, rfl⟩ := protected_sets_clock_only heligible' hretained'
      have hspares := (hreclaims.spares (hswept _) hreachable).trans
        (hthrew.spares (fun bid bd hfind => hswept _ bid bd (hreclaims.find_blob hfind))
          hreachable)
      exact hspared eligible _ ⟨hspares.trace, hspares.blob, hspares.entry⟩

/-! ## Staying keyed -/

section Publishing

variable {underlay : IBackend W} {slice : ChunkSlice}

/-- Acquiring a chunk keeps the entries keyed and names the blob by the digest of the chunk. -/
theorem Acquired.keyed {p q : Publishing W} {blobId : BlobId}
    (h : Acquired underlay slice p blobId q) (ht : EntriesKeyed p.system.store.dedup) :
    EntriesKeyed q.system.store.dedup ∧ blobId = blobIdFromDigest slice.digest := by
  cases h with
  | @reused e w t hfind _ hadd =>
      refine ⟨fun d e' hfind' => ?_, ht _ _ hfind⟩
      obtain ⟨_, hfinds⟩ := DedupTable.add_reference_cases hfind hadd
      have hfind'' : t.find d = some e' := hfind'
      rw [hfinds d] at hfind''
      by_cases hd : d = slice.digest
      · rw [if_pos hd] at hfind''
        cases hfind''
        have hblob := ht _ _ hfind
        rw [hd]
        exact hblob
      · rw [if_neg hd] at hfind''
        exact ht d e' hfind''
  | @written s w₁ w₂ t added hmissed _ _ hinsert =>
      refine ⟨fun d e' hfind' => ?_, rfl⟩
      have hfind'' : t.find d = some e' := hfind'
      rcases DedupTable.insert_cases hinsert with ⟨_, hfinds⟩ | ⟨_, _, _, rfl⟩
      · rw [hfinds d] at hfind''
        by_cases hd : d = slice.digest
        · rw [if_pos hd] at hfind''
          cases hfind''
          rw [hd]
        · rw [if_neg hd] at hfind''
          exact ht d e' hfind''
      · exact ht d e' hfind''

/-- A blob recorded under the identity of its digest keeps the blob table keyed. -/
theorem keyed_record_blob {dedup : DedupTable} {replica : ReplicaId}
    {blobs : UnorderedMap BlobId BlobDescriptor}
    (h : ∀ bid bd, blobs.find bid = some bd → bid = blobIdFromDigest bd.digest) {bid : BlobId}
    {bd : BlobDescriptor}
    (hfind : (recordBlob dedup slice (blobIdFromDigest slice.digest) replica blobs).find bid =
      some bd) : bid = blobIdFromDigest bd.digest := by
  unfold recordBlob at hfind
  cases hblob : blobs.find (blobIdFromDigest slice.digest) with
  | none =>
      rw [hblob] at hfind
      simp only [UnorderedMap.find_emplace, hblob] at hfind
      by_cases hbid : bid = blobIdFromDigest slice.digest
      · rw [if_pos hbid] at hfind
        cases hfind
        exact hbid
      · rw [if_neg hbid] at hfind
        exact h bid bd hfind
  | some bd₀ =>
      rw [hblob] at hfind
      simp only at hfind
      split at hfind
      · exact h bid bd hfind
      · rw [UnorderedMap.find_modify] at hfind
        split at hfind
        · obtain ⟨bd₁, hfind₁, rfl⟩ := Option.map_eq_some_iff.mp hfind
          exact h bid bd₁ hfind₁
        · exact h bid bd hfind

/-- A publication under way: table, blobs and recorded chunks are keyed. -/
structure KeyedSoFar (p : Publishing W) : Prop where
  entries : EntriesKeyed p.system.store.dedup
  blobs : ∀ bid bd, p.system.store.blobs.find bid = some bd → bid = blobIdFromDigest bd.digest
  chunks : ∀ cd ∈ p.locals.chunkDescriptors, cd.blobId = blobIdFromDigest cd.digest

theorem KeyedSoFar.round {p q : Publishing W} {blobId : BlobId} (h : KeyedSoFar p)
    (hacquired : Acquired underlay slice p blobId q) : KeyedSoFar (recordChunk slice blobId q) := by
  obtain ⟨hentries, rfl⟩ := hacquired.keyed h.entries
  obtain ⟨_, _, hstore⟩ := hacquired.store_eq
  refine ⟨hentries, fun bid bd hfind => keyed_record_blob ?_ hfind, fun cd hcd => ?_⟩
  · rw [hstore]
    exact h.blobs
  · rcases List.mem_append.mp hcd with hold | hnew
    · rw [hacquired.locals_eq.1] at hold
      exact h.chunks cd hold
    · obtain rfl := List.mem_singleton.mp hnew
      rfl

/-- The chunk loop keeps blobs under their own identities. -/
theorem KeyedSoFar.rounds {slices : List ChunkSlice} {p p' : Publishing W} (h : KeyedSoFar p)
    (hrounds : Rounds underlay slices p p') : KeyedSoFar p' := by
  induction hrounds with
  | nil p => exact h
  | cons hacquired _ ih => exact ih (h.round hacquired)

end Publishing

/-- An entry that survives a rollback is an entry that was there, up to its count. -/
theorem EntriesKeyed.rolled_back {t : DedupTable} (h : EntriesKeyed t) (digests : List Digest) :
    EntriesKeyed (rolledBack digests t) := by
  unfold rolledBack
  induction digests generalizing t with
  | nil => exact h
  | cons d₁ rest ih =>
      rw [List.foldl_cons]
      refine ih fun d e hfind => ?_
      rw [rollbackDigest, DedupTable.find_release_until_orphan] at hfind
      split at hfind
      · simp at hfind
      · rw [DedupTable.find_release_reference] at hfind
        split at hfind
        · next hd =>
            obtain ⟨e₀, hfind₀, rfl⟩ := Option.map_eq_some_iff.mp hfind
            rw [hd]
            exact h d₁ e₀ hfind₀
        · exact h d e hfind

theorem keyed_start {s : System W} (hkeyed : Keyed s.store)
    (hentries : EntriesKeyed s.store.dedup) :
    KeyedSoFar (.start s) :=
  ⟨hentries, hkeyed.blobs, fun _ hcd => by simp [Publishing.start] at hcd⟩

/-- So does a publication. -/
theorem Published.keyed {env : Env} {descriptor : CheckpointDescriptor} {data : Bytes}
    {s s' : System W} (h : Published env descriptor data s s') (hkeyed : Keyed s.store)
    (hentries : EntriesKeyed s.store.dedup) : Keyed s'.store ∧ EntriesKeyed s'.store.dedup := by
  cases h with
  | @intro underlay slices p w hadmitted _ hrounds _ _ =>
      have hloop := (keyed_start hkeyed hentries).rounds hrounds
      refine ⟨⟨fun id rec hfind cd hcd => ?_, hloop.blobs⟩, hloop.entries⟩
      dsimp only at hfind
      rw [hrounds.find_published hadmitted.fresh] at hfind
      by_cases hid : id = descriptor.id
      · rw [if_pos hid] at hfind
        cases hfind
        exact hloop.chunks cd hcd
      · rw [if_neg hid] at hfind
        exact hkeyed.chunks id rec hfind cd hcd

theorem PublishFailed.keyed {env : Env} {descriptor : CheckpointDescriptor} {data : Bytes}
    {s s' : System W} (h : PublishFailed env descriptor data s s') (hkeyed : Keyed s.store)
    (hentries : EntriesKeyed s.store.dedup) : Keyed s'.store ∧ EntriesKeyed s'.store.dedup := by
  cases h with
  | rejected => exact ⟨⟨hkeyed.chunks, hkeyed.blobs⟩, hentries⟩
  | @interrupted underlay done rest p s₁ w _ _ hrounds hstopped _ =>
      have hloop := (keyed_start hkeyed hentries).rounds hrounds
      obtain ⟨c, hstore⟩ := hstopped.store_eq
      obtain ⟨_, _, _, _, _, hstore'⟩ := hrounds.store_eq
      refine ⟨⟨?_, ?_⟩, ?_⟩
      · simp only [System.rolledBack, hstore, hstore']
        exact hkeyed.chunks
      · simp only [System.rolledBack, hstore]
        exact hloop.blobs
      · simp only [System.rolledBack, hstore]
        exact hloop.entries.rolled_back _

theorem Reclaims.find_entry {reachable bids : List BlobId} {s s' : System W}
    (h : Reclaims reachable bids s s') {d : Digest} {e : DedupEntry}
    (hfind : s'.store.dedup.find d = some e) : s.store.dedup.find d = some e := by
  induction h with
  | nil s => exact hfind
  | @cons bid rest s s₁ s' hround _ ih =>
      have hfind₁ := ih hfind
      cases hround with
      | deferred => exact hfind₁
      | @forgot bd removedAny =>
          have hfind₂ : (if removedAny then (s.store.dedup.releaseUntilOrphan bd.digest).2
            else s.store.dedup).find d = some e := hfind₁
          split at hfind₂
          · rw [DedupTable.find_release_until_orphan] at hfind₂
            split at hfind₂
            · simp at hfind₂
            · exact hfind₂
          · exact hfind₂

theorem Keyed.sweep {store : Store W} (hkeyed : Keyed store) (hentries : EntriesKeyed store.dedup)
    (eligible : List CheckpointId) :
    Keyed (sweep eligible store) ∧ EntriesKeyed (CheckpointStore.sweep eligible store).dedup := by
  refine ⟨⟨fun id rec hfind cd hcd => ?_, ?_⟩, fun d e hfind => ?_⟩
  · obtain ⟨rec₀, hfind₀, rfl | rfl⟩ := sweep_record_cases hfind
    · exact hkeyed.chunks id rec hfind₀ cd hcd
    · exact hkeyed.chunks id rec₀ hfind₀ cd hcd
  · obtain ⟨_, _, _, hstore⟩ := sweep_store_eq eligible store
    rw [hstore]
    exact hkeyed.blobs
  · have huncounted := sweep_entries eligible store d
    rw [hfind] at huncounted
    obtain ⟨e₀, hfind₀, he₀⟩ := Option.map_eq_some_iff.mp huncounted.symm
    have hblob : e₀.uncounted.blobId = e.uncounted.blobId := by rw [he₀]
    exact hblob ▸ hentries d e₀ hfind₀

/-- So does a collection. -/
theorem GcRan.keyed {env : Env} {s s' : System W} (h : GcRan env s s') (hkeyed : Keyed s.store)
    (hentries : EntriesKeyed s.store.dedup) : Keyed s'.store ∧ EntriesKeyed s'.store.dedup := by
  have hreclaimed : ∀ {reachable bids : List BlobId} {eligible : List CheckpointId}
      {s₂ s₃ : System W}, Reclaims reachable bids { s₂ with store := sweep eligible s.store } s₃ →
      Keyed s₃.store ∧ EntriesKeyed s₃.store.dedup := by
    intro reachable bids eligible s₂ s₃ hreclaims
    obtain ⟨hswept, hsweptEntries⟩ := hkeyed.sweep hentries eligible
    obtain ⟨_, _, _, hstore⟩ := hreclaims.store_eq
    refine ⟨⟨?_, fun bid bd hfind => hswept.blobs bid bd (hreclaims.find_blob hfind)⟩,
      fun d e hfind => hsweptEntries d e (hreclaims.find_entry hfind)⟩
    rw [hstore]
    exact hswept.chunks
  cases h with
  | completed _ _ hreclaims =>
      obtain ⟨hkeyed', hentries'⟩ := hreclaimed hreclaims
      exact ⟨⟨hkeyed'.chunks, hkeyed'.blobs⟩, hentries'⟩
  | interrupted _ _ _ hreclaims hthrew =>
      obtain ⟨hkeyed', hentries'⟩ := hreclaimed hreclaims
      cases hthrew with
      | intro => exact ⟨⟨hkeyed'.chunks, hkeyed'.blobs⟩, hentries'⟩

/-- A chunk of a record was there before, up to its integrity. -/
theorem SameContent.chunk_before {R : W → W → Prop} {s s' : System W} (h : SameContent R s s')
    {id : CheckpointId} {rec : CheckpointRecord} (hfind : s'.store.checkpoints.find id = some rec)
    {cd : ChunkDescriptor} (hcd : cd ∈ rec.chunks) :
    ∃ rec₀ cd₀, s.store.checkpoints.find id = some rec₀ ∧ cd₀ ∈ rec₀.chunks ∧
      cd₀.content = cd.content := by
  have hcontent := h.checkpoints id
  rw [hfind] at hcontent
  obtain ⟨rec₀, hfind₀, hrec₀⟩ := Option.map_eq_some_iff.mp hcontent.symm
  have hchunks : rec₀.chunks.map ChunkDescriptor.content =
      rec.chunks.map ChunkDescriptor.content := congrArg CheckpointRecord.chunks hrec₀
  have hin : cd.content ∈ rec₀.chunks.map ChunkDescriptor.content := by
    rw [hchunks]
    exact List.mem_map_of_mem hcd
  obtain ⟨cd₀, hcd₀, hcontent₀⟩ := List.mem_map.mp hin
  exact ⟨rec₀, cd₀, hfind₀, hcd₀, hcontent₀⟩

theorem keyed_quiet {R : W → W → Prop} {s s' : System W} (h : SameContent R s s')
    (hkeyed : Keyed s.store) (hentries : EntriesKeyed s.store.dedup) :
    Keyed s'.store ∧ EntriesKeyed s'.store.dedup := by
  refine ⟨⟨fun id rec hfind cd hcd => ?_, fun bid bd hfind => ?_⟩, fun d e hfind => ?_⟩
  · obtain ⟨rec₀, cd₀, hfind₀, hcd₀, hcontent₀⟩ := h.chunk_before hfind hcd
    have hblob : cd₀.content.blobId = cd.content.blobId := by rw [hcontent₀]
    have hdigest : cd₀.content.digest = cd.content.digest := by rw [hcontent₀]
    have hkey := hkeyed.chunks id rec₀ hfind₀ cd₀ hcd₀
    rw [show cd.blobId = cd₀.blobId from hblob.symm, show cd.digest = cd₀.digest from hdigest.symm]
    exact hkey
  · have hcontent := h.blobs bid
    rw [hfind] at hcontent
    obtain ⟨bd₀, hfind₀, hbd₀⟩ := Option.map_eq_some_iff.mp hcontent.symm
    have hdigest : bd₀.content.digest = bd.content.digest := by rw [hbd₀]
    rw [show bd.digest = bd₀.digest from hdigest.symm]
    exact hkeyed.blobs bid bd₀ hfind₀
  · rw [h.dedup d] at hfind
    exact hentries d e hfind

/-- Every step but a restart keeps a store keyed. -/
theorem Transition.keyed {env : Env} {R : W → W → Prop} {s s' : System W} {e : Event W}
    (h : Transition env R s e s') (hreopens : e.reopens = false) (hkeyed : Keyed s.store)
    (hentries : EntriesKeyed s.store.dedup) : Keyed s'.store ∧ EntriesKeyed s'.store.dedup := by
  cases h with
  | quiet _ h => exact keyed_quiet h hkeyed hentries
  | published h => exact h.keyed hkeyed hentries
  | publishFailed h => exact h.keyed hkeyed hentries
  | gcRan h => exact h.keyed hkeyed hentries
  | reopened => simp [Event.reopens] at hreopens

/-- A keyed store stays keyed, whatever happens between its operations. -/
theorem keyed_run {env : Env} {s s' : System W} {events : List (Event W)}
    (hkeyed : Keyed s.store) (hentries : EntriesKeyed s.store.dedup)
    (hrun : Run (Step env Anything) s events s') (hevents : ∀ e ∈ events, e.reopens = false) :
    Keyed s'.store ∧ EntriesKeyed s'.store.dedup := by
  refine Run.invariant_on (fun _ s => Keyed s.store ∧ EntriesKeyed s.store.dedup)
    ⟨hkeyed, hentries⟩ ?_ hrun hevents
  rintro _ s₁ e s₂ _ ⟨hk, ht⟩ hreopens hstep
  exact (step_transition (all_look_anything s₁) hstep).keyed hreopens hk ht

/-- Garbage collection never deletes protected data. In every keyed state, with any reference
counts and any planned list of blobs, `gc_run` keeps what the checkpoints it protects refer to.
If the entries of the dedup table are keyed too, the same holds after any further steps, so also
when operations come between a plan and its execution. -/
theorem gc_run_keeps_protected {env : Env} {s : System W} (hkeyed : Keyed s.store) :
    GcKeepsProtected env s ∧
      (EntriesKeyed s.store.dedup → ∀ events s', Run (Step env Anything) s events s' →
        (∀ e ∈ events, e.reopens = false) → GcKeepsProtected env s') :=
  ⟨hkeyed.gc_keeps_protected, fun hentries _ _ hrun hevents =>
    (keyed_run hkeyed hentries hrun hevents).1.gc_keeps_protected⟩

/-- Both blobs of a retired checkpoint are planned for removal, and then one of them is shared by
a new checkpoint. -/
def sharedAfterPlan : List (Op MemoryWorld) := [
  .createFamily,
  .publish (sampleDescriptor 7 1 2) [0, 1],
  .retire ⟨7⟩,
  .gcPlan,
  .publish (sampleDescriptor 8 2 1) [0]]

/-- A planned blob is shared by a publication before the collection. -/
theorem gc_run_keeps_protected_shared_after_plan :
    let s := sampleRun tagHash [] sharedAfterPlan
    s.store.gc.reclaimableBlobs.length = 2 ∧
      (finalState (gcRun (sampleEnv tagHash) s)).trace =
        s.trace ++ [.removing ⟨1⟩ (blobKey (tagHash.sha256 [1]))] ∧
      GcKeepsProtected (sampleEnv tagHash) s := by
  intro s
  have hfresh : Keyed (sampleSystem tagHash []).store :=
    ⟨fun _ _ hfind => by simp [sampleSystem, System.fresh, Store.create] at hfind,
      fun _ _ hfind => by simp [sampleSystem, System.fresh, Store.create] at hfind⟩
  have hentries : EntriesKeyed (sampleSystem tagHash []).store.dedup :=
    fun _ _ hfind => by simp [sampleSystem, System.fresh, Store.create] at hfind
  have hrun := run_calls (sampleEnv tagHash) Anything (sampleSystem tagHash []) sharedAfterPlan
  obtain ⟨hkeyed, _⟩ := keyed_run hfresh hentries hrun (by decide +kernel)
  exact ⟨by decide +kernel, by decide +kernel, (gc_run_keeps_protected hkeyed).1⟩

end CheckpointStore
