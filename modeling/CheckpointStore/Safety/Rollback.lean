import CheckpointStore.Safety.Identities
import CheckpointStore.Safety.Stock

/-!
# What a failed publication leaves behind

A publication that throws removes the objects it has written and releases one reference for
each. It does not take back the references that its other chunks have added, nor the blobs and
placements it has registered. The results say exactly when nothing of this is left: for content
that other checkpoints share (`failed_publish_keeps_shared`) and for the metadata
(`failed_publish_keeps_metadata`). Both depend on the chunks that were stored before the failure
(`storedChunks`).
-/

namespace CheckpointStore

open Foundation Foundation.Procedure

variable {W : Type}

/-- How many of the slices have the digest. -/
def occurrences (d : Digest) (slices : List ChunkSlice) : Nat :=
  slices.countP fun slice => slice.digest = d

/-- The chunks that a failed publication from `s` to `s'` had stored when it was stopped. A
publication draws one identity for its replica and then one for every stored chunk. -/
def storedChunks (env : Env) (data : Bytes) (s s' : System W) : List ChunkSlice :=
  match chunkStream env.hash data s.store.options.chunkSize with
  | .ok slices => slices.take (s'.idsDrawn - s.idsDrawn - 1)
  | .error _ => []

section Stored

variable {env : Env} {data : Bytes} {s s' : System W}

/-- A publication that was rejected has stored nothing. -/
theorem stored_chunks_of_rejected (c : AccountingSnapshot) :
    storedChunks env data s { s with store := { s.store with counters := c } } = [] := by
  unfold storedChunks
  cases chunkStream env.hash data s.store.options.chunkSize with
  | error exn => rfl
  | ok slices => simp

/-- A publication that was stopped after the rounds for `done` has stored these. -/
theorem stored_chunks_of_rounds {underlay : IBackend W} {done rest : List ChunkSlice}
    {p : Publishing W} {w : W}
    (hslices : chunkStream env.hash data s.store.options.chunkSize = .ok (done ++ rest))
    (hrounds : Rounds underlay done (.start s) p) (hstopped : Stopped underlay rest p.system s') :
    storedChunks env data s (s'.rolledBack p.locals w) = done := by
  have hdrawn : s'.idsDrawn - s.idsDrawn - 1 = done.length := by
    have hp := hrounds.ids_drawn
    have hs' := hstopped.ids_drawn
    simp only [Publishing.start] at hp
    omega
  unfold storedChunks
  rw [hslices]
  show (done ++ rest).take (s'.idsDrawn - s.idsDrawn - 1) = done
  rw [hdrawn, List.take_left]

end Stored

/-! ## What the rounds do to one digest -/

/-- From `p` to `q` a digest has gained `n` references; its entry, its object and the list of
written digests are otherwise as they were. -/
structure Raised (view : ObjectView W) (d : Digest) (n : Nat) (p q : Publishing W) : Prop where
  entry : (q.system.store.dedup.find d).map DedupEntry.uncounted =
    (p.system.store.dedup.find d).map DedupEntry.uncounted
  count : (q.system.store.dedup.refcount d).toNat =
    (p.system.store.dedup.refcount d).toNat + n
  object : view.objects q.system.world (blobKey d) = view.objects p.system.world (blobKey d)
  written : q.locals.newDigests.count d = p.locals.newDigests.count d

/-- A digest with an entry whose object hashes to it and has the size of the entry. -/
def Intact (H : StreamHash) (view : ObjectView W) (d : Digest) (s : System W) : Prop :=
  ∃ e, s.store.dedup.find d = some e ∧ HeldBy H view (fun _ => True) s.world d e.physicalSize

section Rounds

variable {H : StreamHash} {b : IBackend W} {view : ObjectView W} {d : Digest}

theorem Raised.refl (p : Publishing W) : Raised view d 0 p p := ⟨rfl, rfl, rfl, rfl⟩

theorem Raised.trans {n m : Nat} {p q r : Publishing W} (h : Raised view d n p q)
    (h' : Raised view d m q r) : Raised view d (n + m) p r where
  entry := h'.entry.trans h.entry
  count := by rw [h'.count, h.count, Nat.add_assoc]
  object := h'.object.trans h.object
  written := h'.written.trans h.written

theorem Raised.find_none_iff {n : Nat} {p q : Publishing W} (h : Raised view d n p q) :
    q.system.store.dedup.find d = none ↔ p.system.store.dedup.find d = none := by
  rw [← Option.map_eq_none_iff, h.entry, Option.map_eq_none_iff]

theorem Raised.intact {n : Nat} {p q : Publishing W} (h : Raised view d n p q)
    (hp : Intact H view d p.system) : Intact H view d q.system := by
  obtain ⟨e, hfind, hheld⟩ := hp
  have hentry := h.entry
  rw [hfind] at hentry
  obtain ⟨e', hfind', he'⟩ := Option.map_eq_some_iff.mp hentry
  have hsize : e'.uncounted.physicalSize = e.uncounted.physicalSize := by rw [he']
  refine ⟨e', hfind', ?_⟩
  rw [show e'.physicalSize = e.physicalSize from hsize, held_by_congr h.object]
  exact hheld

variable {slice : ChunkSlice} {blobId : BlobId} {p q : Publishing W}

/-- A round does nothing to the other digests. -/
theorem Acquired.raised_elsewhere (hb : b.Lawful H view) (h : Acquired b slice p blobId q)
    (hd : d ≠ slice.digest) : Raised view d 0 p (recordChunk slice blobId q) := by
  have hfind : q.system.store.dedup.find d = p.system.store.dedup.find d := by
    cases h with
    | reused hfind _ hadd =>
        exact ((DedupTable.add_reference_cases hfind hadd).2 d).trans (if_neg hd)
    | written _ _ _ hinsert =>
        rcases DedupTable.insert_cases hinsert with ⟨_, hfinds⟩ | ⟨_, _, _, rfl⟩
        · exact (hfinds d).trans (if_neg hd)
        · rfl
  refine ⟨congrArg (Option.map DedupEntry.uncounted) hfind, ?_, ?_, ?_⟩
  · show (q.system.store.dedup.refcount d).toNat = _
    unfold DedupTable.refcount
    rw [hfind]
    rfl
  · show view.objects q.system.world (blobKey d) = _
    cases h with
    | reused _ hverify _ => exact congrFun ((hb.verify _ _ _).of_ok hverify).1 _
    | written hmissed hput hcommit _ =>
        exact (objects_update_ne (objects_of_put_commit hb hput hcommit) hd).trans
          (congrFun (hmissed.same hb) _)
  · show q.locals.newDigests.count d = _
    cases h with
    | reused => rfl
    | written =>
        show (p.locals.newDigests ++ [slice.digest]).count d = _
        rw [List.count_append, List.count_singleton, if_neg (by simpa using Ne.symm hd)]
        rfl

/-- A round for an intact digest shares its object. -/
theorem Acquired.raised_intact (hb : b.Lawful H view) (h : Acquired b slice p blobId q)
    (hp : Intact H view slice.digest p.system) :
    Raised view slice.digest 1 p (recordChunk slice blobId q) := by
  cases h with
  | @reused e w t hfind hverify hadd =>
      have hadded := (DedupTable.add_reference_cases hfind hadd).2 slice.digest
      rw [if_pos rfl] at hadded
      refine ⟨?_, ?_, congrFun ((hb.verify _ _ _).of_ok hverify).1 _, rfl⟩
      · show (t.find slice.digest).map _ = _
        rw [hadded, hfind]
        rfl
      · refine (refcount_add_reference hfind hadd slice.digest).trans ?_
        rw [if_pos rfl]
  | written hmissed =>
      -- The entry is there and its object verifies, so it was not missed.
      obtain ⟨e, hfind, x, hobject, hhash, _⟩ := hp
      exact absurd ⟨x, hobject, hhash⟩ (hmissed.no_object hb e hfind)

/-- A round for a digest without an entry writes its object and counts one reference. -/
theorem Acquired.written_absent (hb : b.Lawful H view) (h : Acquired b slice p blobId q)
    (hok : SliceOk H slice) (hnone : p.system.store.dedup.find slice.digest = none) :
    Intact H view slice.digest (recordChunk slice blobId q).system ∧
      (q.system.store.dedup.refcount slice.digest).toNat = 1 ∧
      q.locals.newDigests.count slice.digest = p.locals.newDigests.count slice.digest + 1 := by
  cases h with
  | reused hfind =>
      rw [hnone] at hfind
      simp at hfind
  | @written s w₁ w₂ t added hmissed hput hcommit hinsert =>
      rcases DedupTable.insert_cases hinsert with ⟨_, hfinds⟩ | ⟨_, hfind, _⟩
      · have hentry := hfinds slice.digest
        rw [if_pos rfl] at hentry
        have hobject := objects_update_self (objects_of_put_commit hb hput hcommit)
        refine ⟨⟨_, hentry, slice.bytes, hobject, hok.digest_eq.symm, hok.length_eq, trivial⟩,
          ?_, ?_⟩
        · show (t.refcount slice.digest).toNat = 1
          rw [DedupTable.refcount_of_find hentry]
          rfl
        · show (p.locals.newDigests ++ [slice.digest]).count slice.digest = _
          rw [List.count_append, List.count_singleton_self]
      · rw [hnone] at hfind
        simp at hfind

variable {slices : List ChunkSlice} {p' : Publishing W}

/-- The rounds do nothing to a digest that they do not meet. -/
theorem Rounds.raised_elsewhere (hb : b.Lawful H view) (h : Rounds b slices p p')
    (hd : ∀ slice ∈ slices, slice.digest ≠ d) : Raised view d 0 p p' := by
  induction h with
  | nil p => exact .refl p
  | @cons slice rest p q p' blobId hacquired _ ih =>
      have hslice : d ≠ slice.digest := Ne.symm (hd slice (by simp))
      exact (hacquired.raised_elsewhere hb hslice).trans
        (ih fun slice' hin => hd slice' (List.mem_cons_of_mem _ hin))

/-- The rounds add a reference to an intact digest whenever they meet it. -/
theorem Rounds.raised_intact (hb : b.Lawful H view) (h : Rounds b slices p p')
    (hp : Intact H view d p.system) : Raised view d (occurrences d slices) p p' := by
  induction h with
  | nil p => exact .refl p
  | @cons slice rest p q p' blobId hacquired _ ih =>
      unfold occurrences
      by_cases hd : slice.digest = d
      · subst hd
        have hstep := hacquired.raised_intact hb hp
        rw [List.countP_cons_of_pos (by simp), Nat.add_comm]
        exact hstep.trans (ih (hstep.intact hp))
      · have hstep := hacquired.raised_elsewhere hb (Ne.symm hd)
        rw [List.countP_cons_of_neg (by simpa using hd), ← Nat.zero_add (List.countP _ _)]
        exact hstep.trans (ih (hstep.intact hp))

/-- The rounds write a digest without an entry once and add a reference whenever they meet it. -/
theorem Rounds.written_absent (hb : b.Lawful H view) (h : Rounds b slices p p')
    (hok : ∀ slice ∈ slices, SliceOk H slice)
    (hnone : p.system.store.dedup.find d = none) (hd : ∃ slice ∈ slices, slice.digest = d) :
    (p'.system.store.dedup.refcount d).toNat = occurrences d slices ∧
      Intact H view d p'.system ∧
      p'.locals.newDigests.count d = p.locals.newDigests.count d + 1 := by
  induction h with
  | nil p => simp at hd
  | @cons slice rest p q p' blobId hacquired hrest ih =>
      by_cases hslice : slice.digest = d
      · -- The first time: the later rounds share the object.
        subst hslice
        obtain ⟨hintact, hcount, hwritten⟩ :=
          hacquired.written_absent hb (hok slice (by simp)) hnone
        have hraised := hrest.raised_intact hb hintact
        refine ⟨?_, hraised.intact hintact, hraised.written.trans hwritten⟩
        refine hraised.count.trans ?_
        show (q.system.store.dedup.refcount slice.digest).toNat + _ = _
        unfold occurrences
        rw [hcount, List.countP_cons_of_pos (by simp), Nat.add_comm]
      · have hstep := hacquired.raised_elsewhere hb (Ne.symm hslice)
        have hlater : ∃ slice' ∈ rest, slice'.digest = d := by
          obtain ⟨slice', hin, heq⟩ := hd
          rcases List.mem_cons.mp hin with rfl | hin
          · exact absurd heq hslice
          · exact ⟨slice', hin, heq⟩
        obtain ⟨hcount, hintact, hwritten⟩ := ih
          (fun slice' hin => hok slice' (List.mem_cons_of_mem _ hin))
          (hstep.find_none_iff.mpr hnone) hlater
        refine ⟨?_, hintact, by rw [hwritten, hstep.written]⟩
        unfold occurrences
        rw [hcount, List.countP_cons_of_neg (by simpa using hslice)]
        rfl

/-- The keys to remove are those of the written digests. -/
theorem Rounds.new_blob_keys (h : Rounds b slices p p')
    (hp : p.locals.newBlobKeys = p.locals.newDigests.map blobKey) :
    p'.locals.newBlobKeys = p'.locals.newDigests.map blobKey := by
  induction h with
  | nil p => exact hp
  | @cons slice rest p q p' blobId hacquired _ ih =>
      refine ih ?_
      cases hacquired with
      | reused => exact hp
      | written =>
          show p.locals.newBlobKeys ++ [blobKey slice.digest] = (p.locals.newDigests ++ _).map _
          rw [hp, List.map_append]
          rfl

end Rounds

/-! ## Content shared with other checkpoints -/

/-- A chunk of a checkpoint that is not deleted has the digest. -/
def Shared (store : Store W) (d : Digest) : Prop :=
  ∃ id rec, store.checkpoints.find id = some rec ∧ rec.lifecycle ≠ .deleted ∧
    ∃ cd ∈ rec.chunks, cd.digest = d

/-- The count and the object of a digest are as they were. -/
structure Untouched (view : ObjectView W) (d : Digest) (s s' : System W) : Prop where
  refcount : s'.store.dedup.refcount d = s.store.dedup.refcount d
  object : view.objects s'.world (blobKey d) = view.objects s.world (blobKey d)

/-- The states that a fresh store over the one backend `b`, which nobody else alters, can reach
without a restart. -/
def Reachable (env : Env) (b : IBackend W) (view : ObjectView W) (s : System W) : Prop :=
  ∃ options backends w events, (∀ id b', backends.find id = some b' → b' = b) ∧
    Run (Step env view.Same) (.fresh options backends w) events s ∧
    ∀ e ∈ events, e.reopens = false

theorem Reachable.supplied {env : Env} {b : IBackend W} {view : ObjectView W} {s : System W}
    (hb : b.Lawful env.hash view) (h : Reachable env b view s) :
    Supplied env b view (fun _ => True) s.store.options.chunkSize s := by
  obtain ⟨options, backends, w, events, hbackends, hrun, hreopens⟩ := h
  obtain ⟨hs, _⟩ := supplied_invariant (C := fun _ => True) hb hbackends
    (fun e (hreopens : e.reopens = false) => ⟨hreopens, fun _ _ => trivial⟩) (fun _ _ => True)
    trivial (fun _ _ _ _ _ _ _ _ => trivial) hrun hreopens
  rw [hs.chunkSize_eq]
  exact hs

section Shared

variable {env : Env} {b : IBackend W} {view : ObjectView W} {d : Digest}
  {descriptor : CheckpointDescriptor} {data : Bytes} {s s' : System W}

/-- In a reachable state shared digests are intact. -/
theorem Reachable.intact (hb : b.Lawful env.hash view) (h : Reachable env b view s)
    (hshared : Shared s.store d) : Intact env.hash view d s := by
  obtain ⟨id, rec, hfind, hlive, cd, hcd, rfl⟩ := hshared
  exact (h.supplied hb).held_of_chunk hfind hlive hcd

/-- Rolling back leaves a digest that was not written alone. -/
theorem rolled_back_unwritten {H : StreamHash} (hb : b.Lawful H view) {rest : List ChunkSlice}
    {p : Publishing W} {w : W} (hkeys : p.locals.newBlobKeys = p.locals.newDigests.map blobKey)
    (hstopped : Stopped b rest p.system s) (hremovals : Removals b p.locals.newBlobKeys s.world w)
    (hd : p.locals.newDigests.count d = 0) :
    (s.rolledBack p.locals w).store.dedup.find d = p.system.store.dedup.find d ∧
      view.objects w (blobKey d) = view.objects p.system.world (blobKey d) := by
  have hnot : d ∉ p.locals.newDigests := List.count_eq_zero.mp hd
  constructor
  · obtain ⟨c, hstore⟩ := hstopped.store_eq
    show (rolledBack p.locals.newDigests s.store.dedup).find d = _
    rw [find_rolled_back_of_not_mem hnot, hstore]
  · rcases hremovals.objects hb (blobKey d) with hsame | ⟨hin, _⟩
    · exact hsame.trans (congrFun (hstopped.same hb) _)
    · rw [hkeys] at hin
      obtain ⟨d', hd', hkey⟩ := List.mem_map.mp hin
      exact absurd (blob_key_injective hkey ▸ hd') hnot

/-- A digest that the stored chunks only raised keeps its object and gains their references. -/
theorem rolled_back_raised {H : StreamHash} (hb : b.Lawful H view) {done rest : List ChunkSlice}
    {p : Publishing W} {s₁ : System W} {w : W} {n : Nat} (hrounds : Rounds b done (.start s) p)
    (hstopped : Stopped b rest p.system s₁)
    (hremovals : Removals b p.locals.newBlobKeys s₁.world w)
    (hraised : Raised view d n (.start s) p) :
    ((s₁.rolledBack p.locals w).store.dedup.refcount d).toNat =
        (s.store.dedup.refcount d).toNat + n ∧
      view.objects w (blobKey d) = view.objects s.world (blobKey d) := by
  obtain ⟨hfind, hobject⟩ := rolled_back_unwritten hb (hrounds.new_blob_keys rfl) hstopped
    hremovals hraised.written
  refine ⟨?_, hobject.trans hraised.object⟩
  refine Eq.trans ?_ hraised.count
  unfold DedupTable.refcount
  rw [hfind]

/-- A failed publication does nothing to a digest that is not among the stored chunks. -/
theorem PublishFailed.untouched_elsewhere (hb : b.Lawful env.hash view)
    (hbackends : ∀ id b', s.store.backends.find id = some b' → b' = b)
    (h : PublishFailed env descriptor data s s')
    (hd : ∀ slice ∈ storedChunks env data s s', slice.digest ≠ d) : Untouched view d s s' := by
  cases h with
  | rejected => exact ⟨rfl, rfl⟩
  | interrupted hadmitted hslices hrounds hstopped hremovals =>
      obtain rfl := hbackends _ _ hadmitted.backend
      rw [stored_chunks_of_rounds hslices hrounds hstopped] at hd
      obtain ⟨hcount, hobject⟩ := rolled_back_raised hb hrounds hstopped hremovals
        (hrounds.raised_elsewhere hb hd)
      exact ⟨UInt64.toNat_inj.mp hcount, hobject⟩

/-- A failed publication leaves the references of its stored chunks on an intact digest. -/
theorem PublishFailed.raises_intact (hb : b.Lawful env.hash view)
    (hbackends : ∀ id b', s.store.backends.find id = some b' → b' = b)
    (h : PublishFailed env descriptor data s s') (hs : Intact env.hash view d s) :
    (s'.store.dedup.refcount d).toNat =
      (s.store.dedup.refcount d).toNat + occurrences d (storedChunks env data s s') := by
  cases h with
  | rejected =>
      rw [stored_chunks_of_rejected]
      rfl
  | interrupted hadmitted hslices hrounds hstopped hremovals =>
      obtain rfl := hbackends _ _ hadmitted.backend
      rw [stored_chunks_of_rounds hslices hrounds hstopped]
      have hstart : Intact env.hash view d (Publishing.start s).system := hs
      exact (rolled_back_raised hb hrounds hstopped hremovals
        (hrounds.raised_intact hb hstart)).1

/-- A failed publication leaves every digest alone that none of its stored chunks has. For the
shared digests of a reachable state this is exact: each stored chunk with such a digest has
added a reference that is not taken back. -/
theorem failed_publish_keeps_shared (hb : b.Lawful env.hash view)
    (hbackends : ∀ id b', s.store.backends.find id = some b' → b' = b) {exn : Exn}
    (hfails : publish env descriptor data s = .error exn s') :
    (∀ d, (∀ slice ∈ storedChunks env data s s', slice.digest ≠ d) → Untouched view d s s') ∧
      (Reachable env b view s → ∀ d, Shared s.store d →
        (Untouched view d s s' ↔ ∀ slice ∈ storedChunks env data s s', slice.digest ≠ d)) := by
  have hfailed := (post_publish env descriptor data s).of_error hfails
  have helsewhere : ∀ d, (∀ slice ∈ storedChunks env data s s', slice.digest ≠ d) →
      Untouched view d s s' := fun d hd => hfailed.untouched_elsewhere hb hbackends hd
  refine ⟨helsewhere, fun hreachable d hshared => ⟨fun h slice hin hdigest => ?_, helsewhere d⟩⟩
  have hraised := hfailed.raises_intact hb hbackends (hreachable.intact hb hshared)
  rw [h.refcount] at hraised
  have hpositive : 0 < occurrences d (storedChunks env data s s') :=
    List.countP_pos_iff.mpr ⟨slice, hin, by simpa using hdigest⟩
  omega

/-- How to see on a concrete store that a digest is shared. -/
theorem shared_of_any {store : Store W} (id : CheckpointId)
    (h : (store.checkpoints.find id).any fun rec =>
      rec.lifecycle ≠ .deleted ∧ ∃ cd ∈ rec.chunks, cd.digest = d) : Shared store d := by
  obtain ⟨rec, hfind, hrec⟩ := (Option.any_eq_true _ _).mp h
  exact ⟨id, rec, hfind, by simpa using hrec⟩

end Shared

/-- Calls on a sample store that do not restart it lead to a reachable state. -/
theorem reachable_sample_run (H : StreamHash) (faults : List Bool) {ops : List (Op MemoryWorld)}
    (hops : ∀ op ∈ ops, (Event.call op none).reopens = false) :
    Reachable (sampleEnv H) (memoryBackend H) MemoryWorld.view (sampleRun H faults ops) := by
  exact ⟨_, _, _, _, fun _ _ => sample_backends H, run_calls _ _ _ ops, fun _ =>
    reopens_of_mem_call_events hops⟩

/-- A sample store with one committed checkpoint, and the faults that are still to come. -/
def oneCommitted (H : StreamHash) (more : List Bool) : System MemoryWorld :=
  sampleRun H ([false, false, false] ++ more)
    [.createFamily, .publish (sampleDescriptor 7 1 1) [0]]

theorem reachable_one_committed (H : StreamHash) (more : List Bool) :
    Reachable (sampleEnv H) (memoryBackend H) MemoryWorld.view (oneCommitted H more) :=
  reachable_sample_run H _ (by decide)

/-- The next publication has other chunks and fails at the second of them. -/
theorem failed_publish_keeps_shared_other_chunks :
    ∃ exn s', publish (sampleEnv tagHash) (sampleDescriptor 8 2 2) [1, 2]
        (oneCommitted tagHash [false, false, true]) = .error exn s' ∧
      Untouched MemoryWorld.view (tagHash.sha256 [0]) (oneCommitted tagHash [false, false, true])
        s' := by
  have hreachable := reachable_one_committed tagHash [false, false, true]
  have hshared : Shared (oneCommitted tagHash [false, false, true]).store (tagHash.sha256 [0]) :=
    shared_of_any ⟨7⟩ (by decide +kernel)
  have hfails : publish (sampleEnv tagHash) (sampleDescriptor 8 2 2) [1, 2]
      (oneCommitted tagHash [false, false, true]) = .error (.error .io "injected fault") _ :=
    eq_error_of_thrown (by decide +kernel)
  have hb := memory_backend_lawful tagHash
  exact ⟨_, _, hfails, ((failed_publish_keeps_shared hb (hreachable.supplied hb).backends
    hfails).2 hreachable _ hshared).mpr (by decide +kernel)⟩

/-- A publication that shares the chunk of a committed checkpoint twice and fails when it reads
back leaves two references too many. -/
theorem failed_publish_raises_shared :
    ∃ s exn s', Reachable (sampleEnv sha256Hash) (memoryBackend sha256Hash) MemoryWorld.view s ∧
      publish (sampleEnv sha256Hash) (sampleDescriptor 8 2 2) [0, 0] s = .error exn s' ∧
      Shared s.store (sha256Hash.sha256 [0]) ∧
      s.store.dedup.refcount (sha256Hash.sha256 [0]) = 1 ∧
      s'.store.dedup.refcount (sha256Hash.sha256 [0]) = 3 := by
  have hrun : thrown (publish (sampleEnv sha256Hash) (sampleDescriptor 8 2 2) [0, 0]
        (oneCommitted sha256Hash [true])) = some (.error .io "injected fault") ∧
      ((oneCommitted sha256Hash [true]).store.checkpoints.find ⟨7⟩).any (fun rec =>
        rec.lifecycle ≠ .deleted ∧ ∃ cd ∈ rec.chunks, cd.digest = sha256Hash.sha256 [0]) ∧
      (oneCommitted sha256Hash [true]).store.dedup.refcount (sha256Hash.sha256 [0]) = 1 ∧
      (finalState (publish (sampleEnv sha256Hash) (sampleDescriptor 8 2 2) [0, 0]
        (oneCommitted sha256Hash [true]))).store.dedup.refcount (sha256Hash.sha256 [0]) = 3 := by
    decide +kernel
  obtain ⟨hthrown, hshared, hbefore, hafter⟩ := hrun
  exact ⟨_, _, _, reachable_one_committed sha256Hash [true], eq_error_of_thrown hthrown,
    shared_of_any ⟨7⟩ hshared, hbefore, hafter⟩

/-! ## The metadata -/

/-- Two stores have the same checkpoints, families, next generations, blobs, replicas and
placements. -/
structure SameMetadata (store store' : Store W) : Prop where
  checkpoints : ∀ id, store'.checkpoints.find id = store.checkpoints.find id
  families : ∀ id, store'.families.find id = store.families.find id
  nextCheckpointGeneration : ∀ id,
    store'.nextCheckpointGeneration.find id = store.nextCheckpointGeneration.find id
  blobs : ∀ id, store'.blobs.find id = store.blobs.find id
  replicas : ∀ id, store'.replicas.find id = store.replicas.find id
  placements : ∀ id, store'.placements.find id = store.placements.find id

section Metadata

variable {env : Env} {descriptor : CheckpointDescriptor} {data : Bytes} {s s' : System W}

/-- A failed publication that has stored no chunk has registered nothing. -/
theorem PublishFailed.same_metadata (h : PublishFailed env descriptor data s s')
    (hstored : storedChunks env data s s' = []) : SameMetadata s.store s'.store := by
  cases h with
  | rejected =>
      exact ⟨fun _ => rfl, fun _ => rfl, fun _ => rfl, fun _ => rfl, fun _ => rfl, fun _ => rfl⟩
  | @interrupted underlay done rest p s₁ w hadmitted hslices hrounds hstopped hremovals =>
      rw [stored_chunks_of_rounds hslices hrounds hstopped] at hstored
      subst hstored
      obtain ⟨c, hstore⟩ := hstopped.store_eq
      cases hrounds with
      | nil =>
          simp only [System.rolledBack, hstore]
          exact ⟨fun _ => rfl, fun _ => rfl, fun _ => rfl, fun _ => rfl, fun _ => rfl,
            fun _ => rfl⟩

/-- While identities are new, a stored chunk has registered a placement that stays. -/
theorem PublishFailed.placement_left (h : PublishFailed env descriptor data s s')
    (hs : Numbered s) (hroom : 1000 + s'.idsDrawn ≤ 2 ^ 64)
    (hstored : storedChunks env data s s' ≠ []) :
    ∃ id, s.store.placements.find id = none ∧ s'.store.placements.find id ≠ none := by
  cases h with
  | rejected => exact absurd (stored_chunks_of_rejected _) hstored
  | @interrupted underlay done rest p s₁ w hadmitted hslices hrounds hstopped hremovals =>
      rw [stored_chunks_of_rounds hslices hrounds hstopped] at hstored
      have hdrawn : s₁.idsDrawn = s.idsDrawn + 1 + done.length :=
        hstopped.ids_drawn.trans hrounds.ids_drawn
      obtain ⟨c, hstore⟩ := hstopped.store_eq
      cases hrounds with
      | nil => exact absurd rfl hstored
      | @cons slice later _ q _ blobId hacquired hlater =>
          -- The first chunk takes the identity after the one of the replica.
          have hq : Numbered q.system := hs.start.acquired hacquired
          have hroom' : 1000 + q.system.idsDrawn < 2 ^ 64 := by
            have hfirst : q.system.idsDrawn = s.idsDrawn + 1 := hacquired.ids_drawn
            have hlast : 1000 + s₁.idsDrawn ≤ 2 ^ 64 := hroom
            rw [List.length_cons] at hdrawn
            omega
          have hfresh := hq.placement_fresh hroom'
          refine ⟨⟨q.system.store.nextIdCounter⟩, ?_, ?_⟩
          · obtain ⟨_, _, hacquired⟩ := hacquired.store_eq
            rw [hacquired] at hfresh ⊢
            exact hfresh
          · have hfirst : (recordChunk slice blobId q).system.store.placements.find
                ⟨q.system.store.nextIdCounter⟩ = some _ :=
              (UnorderedMap.find_emplace _ _ _ _).trans (if_pos rfl)
            have hplaced := hlater.find_placement hfirst
            show s₁.store.placements.find _ ≠ none
            rw [hstore]
            show p.system.store.placements.find _ ≠ none
            rw [hplaced]
            simp [hfresh]

/-- A failed publication leaves the metadata as it was if it has stored no chunk. In a store that
was not restarted and still has new identities this is exact: every stored chunk has registered
a placement that is not taken back. -/
theorem failed_publish_keeps_metadata {exn : Exn}
    (hfails : publish env descriptor data s = .error exn s') :
    (storedChunks env data s s' = [] → SameMetadata s.store s'.store) ∧
      ∀ options backends w events, Run (Step env Anything) (.fresh options backends w) events s →
        (∀ e ∈ events, e.reopens = false) → 1000 + s'.idsDrawn ≤ 2 ^ 64 →
        (SameMetadata s.store s'.store ↔ storedChunks env data s s' = []) := by
  have hfailed := (post_publish env descriptor data s).of_error hfails
  refine ⟨hfailed.same_metadata, fun options backends w events hrun hreopens hroom => ?_⟩
  refine ⟨fun hsame => by_contra fun hstored => ?_, hfailed.same_metadata⟩
  obtain ⟨id, hbefore, hafter⟩ :=
    hfailed.placement_left (numbered_run hrun hreopens) hroom hstored
  exact hafter ((hsame.placements id).trans hbefore)

end Metadata

/-- A sample store with one family, and the faults that are still to come. -/
def oneFamily (H : StreamHash) (faults : List Bool) : System MemoryWorld :=
  sampleRun H faults [.createFamily]

theorem run_one_family (H : StreamHash) (faults : List Bool)
    (R : MemoryWorld → MemoryWorld → Prop) :
    Run (Step (sampleEnv H) R) (sampleSystem H faults) [.call .createFamily none]
      (oneFamily H faults) :=
  run_calls (sampleEnv H) R (sampleSystem H faults) [.createFamily]

/-- The publication fails when it stages its first chunk. -/
theorem failed_publish_keeps_metadata_first_chunk :
    ∃ exn s', publish (sampleEnv tagHash) (sampleDescriptor 7 1 2) [0, 1]
        (oneFamily tagHash [true]) = .error exn s' ∧
      SameMetadata (oneFamily tagHash [true]).store s'.store := by
  have hfails : publish (sampleEnv tagHash) (sampleDescriptor 7 1 2) [0, 1]
      (oneFamily tagHash [true]) = .error (.error .io "injected fault") _ :=
    eq_error_of_thrown (by decide +kernel)
  exact ⟨_, _, hfails, ((failed_publish_keeps_metadata hfails).2 _ _ _ _
    (run_one_family tagHash [true] Anything) (by decide) (by decide +kernel)).mpr
    (by decide +kernel)⟩

/-- A publication that stores its chunk and fails when it reads it back leaves the placement and
the blob of the chunk. -/
theorem failed_publish_leaves_placement :
    Run (Step (sampleEnv sha256Hash) Anything) (sampleSystem sha256Hash [false, false, true])
        [.call .createFamily none] (oneFamily sha256Hash [false, false, true]) ∧
      ∃ exn s', publish (sampleEnv sha256Hash) (sampleDescriptor 7 1 1) [0]
        (oneFamily sha256Hash [false, false, true]) = .error exn s' ∧
      ((oneFamily sha256Hash [false, false, true]).store.placements.find ⟨1001⟩).isNone ∧
      (s'.store.placements.find ⟨1001⟩).isSome ∧
      (oneFamily sha256Hash [false, false, true]).store.blobs.size = 0 ∧
      s'.store.blobs.size = 1 := by
  have hrun : (let s := oneFamily sha256Hash [false, false, true]
      let r := publish (sampleEnv sha256Hash) (sampleDescriptor 7 1 1) [0] s
      thrown r = some (.error .io "injected fault") ∧
        (s.store.placements.find ⟨1001⟩).isNone ∧
        ((finalState r).store.placements.find ⟨1001⟩).isSome ∧ s.store.blobs.size = 0 ∧
        (finalState r).store.blobs.size = 1) := by
    decide +kernel
  exact ⟨run_one_family _ _ _, _, _, eq_error_of_thrown hrun.1, hrun.2⟩

end CheckpointStore
