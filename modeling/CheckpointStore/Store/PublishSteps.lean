import CheckpointStore.Store.Publish

/-!
# What each part of a publication can do

One inversion lemma for each part of `publish`; later modules argue about publication through
these lemmas only. `post_check_admission` covers the admission checks. Everything one round of the
per-chunk loop can do is an `Acquired` step followed by `recordChunk`, or an `AcquireFailed`
step that leaves the locals as they were (`post_publish_slice`). `post_finish_publish` covers
read-back and commit.
-/

namespace CheckpointStore

open Foundation Foundation.Procedure

variable {W α : Type}

section Lifting

variable {p : Publishing W} {Q : α → Publishing W → Prop} {E : Exn → Publishing W → Prop}

@[simp] theorem post_on_system (m : Proc (System W) α) :
    Post (onSystem m) p Q E ↔ Post m p.system (fun a s => Q a { p with system := s })
      (fun e s => E e { p with system := s }) :=
  post_zoom _ _ _

@[simp] theorem post_modify_locals {Q : Unit → Publishing W → Prop}
    (f : PublishLocals → PublishLocals) :
    Post (modifyLocals f) p Q E ↔ Q () { p with locals := f p.locals } := Iff.rfl

@[simp] theorem post_with_locals {s : System W} {Q : α → System W → Prop}
    {E : Exn → System W → Prop} (l : PublishLocals) (m : Proc (Publishing W) α) :
    Post (withLocals l m) s Q E ↔
      Post m ⟨s, l⟩ (fun a p => Q a p.system) (fun e p => E e p.system) := by
  simp only [Post, withLocals]
  cases m ⟨s, l⟩ <;> rfl

end Lifting

/-! ## Admission -/

/-- The admission checks of `publish` passed, with `underlay` as the primary backend. -/
structure Admitted (s : System W) (descriptor : CheckpointDescriptor) (underlay : IBackend W) :
    Prop where
  boot : descriptor.producerBoot = s.store.options.bootId
  fresh : s.store.checkpoints.find descriptor.id = none
  generation : s.store.nextCheckpointGeneration.find descriptor.familyId =
    some descriptor.generation
  chunkSize : validChunkSize s.store.options.chunkSize = true
  kind : descriptor.kind = .full ∨ descriptor.kind = .synthetic
  backend : s.store.backends.find s.store.primaryBackendId = some underlay

/-- Generations are compared by their values. -/
theorem equal_to_iff {kind : GenerationKind} {a b : BasicGeneration kind} :
    a.equalTo b = true ↔ a = b := by
  rcases a with ⟨a⟩
  rcases b with ⟨b⟩
  simp [BasicGeneration.equalTo]

/-- Admission passes exactly when its conditions hold, and otherwise changes nothing but a
rejection counter. -/
theorem post_check_admission (s : System W) (descriptor : CheckpointDescriptor) :
    Post (checkAdmission descriptor) s (fun underlay s' => s' = s ∧ Admitted s descriptor underlay)
      (fun _ s' => (∀ underlay, ¬ Admitted s descriptor underlay) ∧
        ∃ c, s' = { s with store := { s.store with counters := c } }) := by
  simp only [checkAdmission, post_bind, post_get, post_ite, post_modify_counters,
    post_throw_store_error]
  refine ⟨fun hboot => ⟨fun _ h => hboot h.boot, _, rfl⟩, fun hboot =>
    ⟨fun hused => ⟨fun _ h => ?_, _, rfl⟩, fun hfresh => ?_⟩⟩
  · simp [UnorderedMap.contains, h.fresh] at hused
  cases hgen : s.store.nextCheckpointGeneration.find descriptor.familyId with
  | none =>
      exact ⟨fun _ h => by simp [h.generation] at hgen, s.store.counters, rfl⟩
  | some next =>
      simp only [post_ite, post_bind, post_modify_counters, post_throw_store_error]
      refine ⟨fun hstale => ⟨fun _ h => ?_, _, rfl⟩, fun heq =>
        ⟨fun hsize => ⟨fun _ h => ?_, s.store.counters, rfl⟩, fun hsize =>
        ⟨fun hkind => ⟨fun _ h => ?_, s.store.counters, rfl⟩, fun hkind => ?_⟩⟩⟩
      · have hnext : descriptor.generation = next :=
          Option.some.inj (h.generation.symm.trans hgen)
        rw [equal_to_iff.mpr hnext] at hstale
        simp at hstale
      · rw [h.chunkSize] at hsize
        simp at hsize
      · rcases h.kind with hfull | hsynthetic
        · exact hkind.1 hfull
        · exact hkind.2 hsynthetic
      cases hbackend : s.store.backends.find s.store.primaryBackendId with
      | none => exact ⟨fun _ h => by simp [h.backend] at hbackend, s.store.counters, rfl⟩
      | some underlay =>
          refine ⟨rfl, by simpa using hboot, ?_, ?_, by simpa using hsize, ?_, hbackend⟩
          · exact UnorderedMap.contains_eq_false_iff.mp (by simpa using hfresh)
          · have hnext : descriptor.generation = next := equal_to_iff.mp (by simpa using heq)
            rw [hgen, hnext]
          · by_cases hfull : descriptor.kind = .full
            · exact Or.inl hfull
            · exact Or.inr (by_contra fun hsynthetic => hkind ⟨hfull, hsynthetic⟩)

/-! ## One round of the per-chunk loop -/

/-- No blob is shared for the chunk: the table has no entry, or the entry's object did not
verify. -/
inductive Missed (underlay : IBackend W) (slice : ChunkSlice) (s : System W) :
    System W → Prop where
  | absent (hfind : s.store.dedup.find slice.digest = none) : Missed underlay slice s s
  | damaged {e : DedupEntry} {answer : IntegrityState} {w : W} {c : AccountingSnapshot}
      (hfind : s.store.dedup.find slice.digest = some e)
      (hsize : e.physicalSize = byteSize slice.bytes)
      (hverify : underlay.verify (blobKey slice.digest) slice.digest s.world = .ok answer w)
      (hanswer : answer ≠ .verified) :
      Missed underlay slice s
        { s with
          world := w
          trace := s.trace ++ [.verified (blobKey slice.digest) slice.digest answer]
          store := { s.store with counters := c } }

/-- The locals after a chunk was written. -/
def PublishLocals.wrote (l : PublishLocals) (slice : ChunkSlice) : PublishLocals :=
  { l with
    dedupMisses := l.dedupMisses + 1
    writeSize := l.writeSize + byteSize slice.bytes
    newBlobKeys := l.newBlobKeys ++ [blobKey slice.digest]
    newDigests := l.newDigests ++ [slice.digest] }

/-- The bytes of a chunk are in the store, under the given blob identity. -/
inductive Acquired (underlay : IBackend W) (slice : ChunkSlice) (p : Publishing W) :
    BlobId → Publishing W → Prop where
  | reused {e : DedupEntry} {w : W} {t : DedupTable}
      (hfind : p.system.store.dedup.find slice.digest = some e)
      (hverify : underlay.verify (blobKey slice.digest) slice.digest p.system.world =
        .ok .verified w)
      (hadd : p.system.store.dedup.addReference slice.digest = .ok (true, t)) :
      Acquired underlay slice p e.blobId
        { system := { p.system with
            world := w
            trace := p.system.trace ++ [.verified (blobKey slice.digest) slice.digest .verified]
            store := { p.system.store with dedup := t } }
          locals := { p.locals with dedupHits := p.locals.dedupHits + 1 } }
  | written {s : System W} {w₁ w₂ : W} {t : DedupTable} {added : Bool}
      (hmissed : Missed underlay slice p.system s)
      (hput : underlay.putTemp (blobKey slice.digest) slice.bytes s.world = .ok () w₁)
      (hcommit : underlay.commit (blobKey slice.digest) w₁ = .ok () w₂)
      (hinsert : p.system.store.dedup.insert (blobIdFromDigest slice.digest) slice.digest
        (byteSize slice.bytes) .verified ⟨1⟩ = .ok (added, t)) :
      Acquired underlay slice p (blobIdFromDigest slice.digest)
        { system := { s with world := w₂, store := { s.store with dedup := t } }
          locals := p.locals.wrote slice }

/-- The chunk could not be stored. -/
inductive AcquireFailed (underlay : IBackend W) (slice : ChunkSlice) (s : System W) :
    System W → Prop where
  | lookup {exn : Exn}
      (hlookup : s.store.dedup.lookup slice.digest (byteSize slice.bytes) = .error exn) :
      AcquireFailed underlay slice s s
  | verify {e : DedupEntry} {exn : Exn} {w : W}
      (hfind : s.store.dedup.find slice.digest = some e)
      (hverify : underlay.verify (blobKey slice.digest) slice.digest s.world = .error exn w) :
      AcquireFailed underlay slice s { s with world := w }
  | reference {exn : Exn} {w : W}
      (hverify : underlay.verify (blobKey slice.digest) slice.digest s.world =
        .ok .verified w)
      (hadd : s.store.dedup.addReference slice.digest = .error exn) :
      AcquireFailed underlay slice s
        { s with
          world := w
          trace := s.trace ++ [.verified (blobKey slice.digest) slice.digest .verified] }
  | putTemp {s' : System W} {exn : Exn} {w : W} (hmissed : Missed underlay slice s s')
      (hput : underlay.putTemp (blobKey slice.digest) slice.bytes s'.world = .error exn w) :
      AcquireFailed underlay slice s { s' with world := w }
  | commit {s' : System W} {exn : Exn} {w₁ w₂ : W} (hmissed : Missed underlay slice s s')
      (hput : underlay.putTemp (blobKey slice.digest) slice.bytes s'.world = .ok () w₁)
      (hcommit : underlay.commit (blobKey slice.digest) w₁ = .error exn w₂) :
      AcquireFailed underlay slice s { s' with world := w₂ }

section Rounds

variable {underlay : IBackend W} {slice : ChunkSlice}

/-- A miss leaves the dedup table alone. -/
theorem Missed.dedup_eq {s s' : System W} (h : Missed underlay slice s s') :
    s'.store.dedup = s.store.dedup := by
  cases h with
  | absent => rfl
  | damaged => rfl

/-- After a miss the insertion cannot meet an entry of another size. -/
theorem Missed.insert_ok {s s' : System W} (h : Missed underlay slice s s') :
    ∃ added t, s.store.dedup.insert (blobIdFromDigest slice.digest) slice.digest
      (byteSize slice.bytes) .verified ⟨1⟩ = .ok (added, t) := by
  unfold DedupTable.insert
  cases h with
  | absent hfind =>
      rw [hfind]
      exact ⟨_, _, rfl⟩
  | damaged hfind hsize =>
      rw [hfind]
      simp only [hsize, if_true]
      exact ⟨_, _, rfl⟩

/-- `tryReuse` shares a blob, reports a miss, or fails. -/
theorem post_try_reuse (p : Publishing W) (hsize : byteSize slice.bytes ≠ 0) :
    Post (tryReuse underlay slice) p
      (fun reused p' => match reused with
        | some blobId => Acquired underlay slice p blobId p'
        | none => p'.locals = p.locals ∧ Missed underlay slice p.system p'.system)
      (fun _ p' => p'.locals = p.locals ∧ AcquireFailed underlay slice p.system p'.system) := by
  simp only [tryReuse, post_bind, post_get, post_from_except]
  refine ⟨fun lookup hlookup => ?_, fun _ hlookup => ⟨trivial, .lookup hlookup⟩⟩
  rcases DedupTable.lookup_cases hsize hlookup with ⟨hmiss, hfind⟩ | ⟨hhit, e, hfind, hesize, -, -⟩
  · simp only [hmiss, reduceCtorEq, if_false, post_pure]
    exact ⟨trivial, .absent hfind⟩
  · simp only [hhit, if_true, post_bind, post_on_system, post_verify_object, hfind]
    refine post_of_runs (fun answer w hverify => ?_)
      (fun exn w hverify => ⟨trivial, .verify hfind hverify⟩)
    by_cases hanswer : answer = .verified
    · subst hanswer
      simp only [if_true, post_bind, post_from_except, post_on_system, post_modify_store,
        post_modify_locals, post_pure]
      refine ⟨fun r hadd => ?_, fun _ hadd => ⟨trivial, .reference hverify hadd⟩⟩
      have hr : r = (true, r.2) := by
        simp only [DedupTable.addReference, hfind] at hadd
        split at hadd
        · simp at hadd
        · split at hadd
          · simp at hadd
          · cases hadd; rfl
      exact .reused hfind hverify (hr ▸ hadd)
    · rw [if_neg hanswer]
      unfold refuseReuse
      by_cases hcorrupt : answer = .corrupt
      · simp only [hcorrupt, if_true, post_bind, post_on_system, post_modify_counters, post_pure]
        exact ⟨trivial, .damaged hfind hesize (hcorrupt ▸ hverify) (by simp)⟩
      · simp only [hcorrupt, if_false, post_pure]
        exact ⟨trivial, .damaged hfind hesize hverify hanswer⟩

/-- Writing a missed chunk acquires it or fails. -/
theorem post_write_blob {p q : Publishing W} (hlocals : q.locals = p.locals)
    (hmissed : Missed underlay slice p.system q.system) :
    Post (writeBlob underlay slice) q
      (fun _ p' => Acquired underlay slice p (blobIdFromDigest slice.digest) p')
      (fun _ p' => p'.locals = p.locals ∧ AcquireFailed underlay slice p.system p'.system) := by
  simp only [writeBlob, post_bind, post_on_system, post_call_backend, post_get, post_from_except,
    post_modify_store, post_modify_locals]
  refine post_of_runs (fun _ w₁ hput => ?_) (fun _ w hput => ⟨hlocals, .putTemp hmissed hput⟩)
  refine post_of_runs (fun _ w₂ hcommit => ?_)
    (fun _ w₂ hcommit => ⟨hlocals, .commit hmissed hput hcommit⟩)
  obtain ⟨added, t, hinsert⟩ := hmissed.insert_ok
  rw [hmissed.dedup_eq, hinsert]
  refine ⟨fun r hr => ?_, fun e he => by simp at he⟩
  cases hr
  rw [hlocals]
  exact .written hmissed hput hcommit hinsert

/-- One round of the loop: the chunk is acquired and recorded, or the round fails with the
locals as they were. -/
theorem post_publish_slice (p : Publishing W) (hsize : byteSize slice.bytes ≠ 0) :
    Post (publishSlice underlay slice) p
      (fun _ p' => ∃ blobId q, Acquired underlay slice p blobId q ∧
        p' = recordChunk slice blobId q)
      (fun _ p' => p'.locals = p.locals ∧ AcquireFailed underlay slice p.system p'.system) := by
  simp only [publishSlice, acquire, post_bind, post_modify]
  refine (post_try_reuse p hsize).mono (fun reused q hq => ?_) (fun _ _ hq => hq)
  cases reused with
  | some blobId => exact ⟨blobId, q, hq, rfl⟩
  | none =>
      simp only [post_bind, post_pure]
      refine (post_write_blob hq.1 hq.2).mono (fun _ q' hq' => ?_) (fun _ _ hq' => hq')
      exact ⟨_, q', hq', rfl⟩

end Rounds

/-- Rounds of the loop, one after the other. -/
inductive Rounds (underlay : IBackend W) :
    List ChunkSlice → Publishing W → Publishing W → Prop where
  | nil (p : Publishing W) : Rounds underlay [] p p
  | cons {slice : ChunkSlice} {rest : List ChunkSlice} {p q p' : Publishing W} {blobId : BlobId}
      (hacquired : Acquired underlay slice p blobId q)
      (hrest : Rounds underlay rest (recordChunk slice blobId q) p') :
      Rounds underlay (slice :: rest) p p'

section Loop

variable {underlay : IBackend W}

/-- The loop runs through, or stops at a chunk that could not be stored. -/
theorem post_publish_loop (slices : List ChunkSlice)
    (hsizes : ∀ slice ∈ slices, byteSize slice.bytes ≠ 0) (p : Publishing W) :
    Post (forM slices (publishSlice underlay)) p
      (fun _ p' => Rounds underlay slices p p')
      (fun _ p' => ∃ done slice rest q, slices = done ++ slice :: rest ∧
        Rounds underlay done p q ∧ p'.locals = q.locals ∧
        AcquireFailed underlay slice q.system p'.system) := by
  induction slices generalizing p with
  | nil => exact .nil p
  | cons slice rest ih =>
      rw [List.forM_cons, post_bind]
      refine (post_publish_slice p (hsizes slice (by simp))).mono (fun _ p₁ hp₁ => ?_)
        (fun _ p₁ hp₁ => ⟨[], slice, rest, p, rfl, .nil p, hp₁.1, hp₁.2⟩)
      obtain ⟨blobId, q, hacquired, rfl⟩ := hp₁
      refine (ih (fun s hs => hsizes s (by simp [hs])) _).mono
        (fun _ p' hrounds => .cons hacquired hrounds) (fun _ p' hstop => ?_)
      obtain ⟨done, failed, later, q', rfl, hrounds, hlocals, hfailed⟩ := hstop
      exact ⟨slice :: done, failed, later, q', rfl, .cons hacquired hrounds, hlocals, hfailed⟩

/-- Any number of reads. -/
def Reads (underlay : IBackend W) : W → W → Prop :=
  Relation.ReflTransGen fun w w' => ∃ key, w' = finalState (underlay.read key w)

/-- Whatever single reads keep, any number of reads keeps. -/
theorem Reads.keeps {R : W → W → Prop} [Std.Refl R] [IsTrans W R]
    (hread : ∀ key, Keeps R (underlay.read key)) {w w' : W} (h : Reads underlay w w') :
    R w w' := by
  induction h with
  | refl => exact refl_of R w
  | tail _ hstep ih =>
      obtain ⟨key, rfl⟩ := hstep
      exact trans_of R ih (hread key _)

/-! ## After the loop -/

/-- Reading back touches the world only, and a failure is counted at most. -/
theorem post_read_back (env : Env) (chunks : List ChunkDescriptor) (combined : env.hash.State)
    (s : System W) :
    Post (readBack env underlay chunks combined) s
      (fun _ s' => ∃ w, Reads underlay s.world w ∧ s' = { s with world := w })
      (fun _ s' => ∃ w c, Reads underlay s.world w ∧
        s' = { s with world := w, store := { s.store with counters := c } }) := by
  induction chunks generalizing s combined with
  | nil => exact ⟨s.world, .refl, rfl⟩
  | cons cd rest ih =>
      simp only [readBack, post_bind, post_call_backend]
      refine post_of_runs (fun rb w hread => ?_) (fun _ w hread => ?_)
      · have hstep : Reads underlay s.world w := .single ⟨_, by rw [hread]; rfl⟩
        simp only [post_ite, post_bind, post_modify_counters, post_throw_store_error]
        refine ⟨fun _ => ⟨w, _, hstep, rfl⟩, fun _ => ⟨fun _ => ⟨w, _, hstep, rfl⟩, fun _ => ?_⟩⟩
        refine (ih _ { s with world := w }).mono (fun _ s' hs' => ?_) (fun _ s' hs' => ?_)
        · obtain ⟨w', hw', rfl⟩ := hs'
          exact ⟨w', hstep.trans hw', rfl⟩
        · obtain ⟨w', c, hw', rfl⟩ := hs'
          exact ⟨w', c, hstep.trans hw', rfl⟩
      · exact ⟨w, s.store.counters, .single ⟨_, by rw [hread]; rfl⟩, rfl⟩

/-- The store after a successful publication whose loop ended in `p`. -/
def publishedStore (env : Env) (descriptor : CheckpointDescriptor) (data : Bytes)
    (p : Publishing W) : Store W :=
  let store := p.system.store
  let manifest := newManifest env.hash descriptor data ⟨store.nextIdCounter⟩
    (sortedEntries p.locals) (env.hash.sha256 data)
  commitRecord descriptor data p.locals manifest
    { store with nextIdCounter := store.nextIdCounter + 1 }

/-- What a successful publication returns whose loop ended in `p`. -/
def publishResult (env : Env) (descriptor : CheckpointDescriptor) (data : Bytes)
    (p : Publishing W) : PublishedCheckpoint where
  descriptor := descriptor
  manifest := newManifest env.hash descriptor data ⟨p.system.store.nextIdCounter⟩
    (sortedEntries p.locals) (env.hash.sha256 data)
  chunks := p.locals.chunkDescriptors
  uniquePhysicalBytes := p.locals.writeSize
  deduplicatedBytes :=
    if p.locals.writeSize ≤ byteSize data then byteSize data - p.locals.writeSize else 0
  dedupHits := p.locals.dedupHits
  dedupMisses := p.locals.dedupMisses

/-- Read-back and commit: the record is entered with the digest of the data, or nothing but a
counter has changed. -/
theorem post_finish_publish (env : Env) (descriptor : CheckpointDescriptor) (data : Bytes)
    (p : Publishing W) :
    Post (finishPublish env underlay descriptor data p.locals) p.system
      (fun r s' => ∃ w, Reads underlay p.system.world w ∧
        tileManifest p.locals.chunkSizes (sortedEntries p.locals) 0 = .ok (byteSize data) ∧
        r = publishResult env descriptor data p ∧
        s' = { p.system with
          world := w
          store := publishedStore env descriptor data p
          idsDrawn := p.system.idsDrawn + 1 })
      (fun _ s' => ∃ w c, Reads underlay p.system.world w ∧
        s' = { p.system with world := w, store := { p.system.store with counters := c } }) := by
  simp only [finishPublish, post_bind]
  refine (post_read_back env _ _ _).mono (fun combined s hs => ?_) (fun _ _ hs => hs)
  obtain ⟨w, hreads, rfl⟩ := hs
  have hunchanged : ∃ w' c, Reads underlay p.system.world w' ∧ { p.system with world := w } =
      { p.system with world := w', store := { p.system.store with counters := c } } :=
    ⟨w, p.system.store.counters, hreads, rfl⟩
  simp only [post_ite, post_bind, post_throw_store_error, post_from_except, post_next_id,
    post_modify_store, post_pure]
  refine ⟨fun _ => hunchanged, fun hdigest => ⟨fun expected htile => ⟨fun _ => hunchanged,
    fun hsize => ?_⟩, fun _ _ => hunchanged⟩⟩
  have hsize' : expected = byteSize data := by simpa using hsize
  have hdigest' : env.hash.final combined = env.hash.sha256 data := by simpa using hdigest
  refine ⟨w, hreads, by rw [htile, hsize'], ?_, ?_⟩
  · rw [hdigest']
    rfl
  · rw [hdigest']
    rfl

/-! ## Rollback -/

/-- Removing keys one after the other, whatever each call answers. -/
inductive Removals (underlay : IBackend W) : List BackendKey → W → W → Prop where
  | nil (w : W) : Removals underlay [] w w
  | cons {key : BackendKey} {rest : List BackendKey} {w w' : W}
      (hrest : Removals underlay rest (finalState (underlay.remove key w)) w') :
      Removals underlay (key :: rest) w w'

/-- The dedup table after rolling back the newly written digests. -/
def rolledBack (digests : List Digest) (t : DedupTable) : DedupTable :=
  digests.foldl (fun t d => rollbackDigest d t) t

/-- The system after a rollback that left the world `w`. -/
def System.rolledBack (s : System W) (l : PublishLocals) (w : W) : System W :=
  { s with
    world := w
    trace := s.trace ++ l.newBlobKeys.map (.removing s.store.primaryBackendId)
    store := { s.store with dedup := CheckpointStore.rolledBack l.newDigests s.store.dedup } }

/-- A rollback ignores what `remove` throws. -/
theorem post_rollback_key (key : BackendKey) (s : System W) :
    Post (rollbackKey underlay key) s
      (fun _ s' => s' = { s with
        world := finalState (underlay.remove key s.world)
        trace := s.trace ++ [.removing s.store.primaryBackendId key] })
      (fun _ _ => False) := by
  simp only [rollbackKey, post_try_catch, post_bind, post_get, post_remove_object, post_pure]
  refine post_of_runs (fun _ w hrun => ?_) (fun _ w hrun => ?_)
  · rw [hrun]; rfl
  · rw [hrun]; rfl

private theorem post_rollback_keys (keys : List BackendKey) (s : System W) :
    Post (forM keys (rollbackKey underlay)) s
      (fun _ s' => ∃ w, Removals underlay keys s.world w ∧ s' = { s with
        world := w
        trace := s.trace ++ keys.map (.removing s.store.primaryBackendId) })
      (fun _ _ => False) := by
  induction keys generalizing s with
  | nil => exact ⟨s.world, .nil _, by simp⟩
  | cons key rest ih =>
      rw [List.forM_cons, post_bind]
      refine (post_rollback_key key s).mono (fun _ s₁ hs₁ => ?_) (fun _ _ h => h)
      subst hs₁
      refine (ih _).mono (fun _ s' hs' => ?_) (fun _ _ h => h)
      obtain ⟨w, hw, rfl⟩ := hs'
      exact ⟨w, .cons hw, by simp⟩

private theorem post_rollback_digests (digests : List Digest) (s : System W) :
    Post (forM digests fun d =>
        modifyStore fun store => { store with dedup := rollbackDigest d store.dedup }) s
      (fun _ s' => s' =
        { s with store := { s.store with dedup := rolledBack digests s.store.dedup } })
      (fun _ _ => False) := by
  induction digests generalizing s with
  | nil => rfl
  | cons d rest ih =>
      rw [List.forM_cons, post_bind, post_modify_store]
      exact (ih _).mono (fun _ s' hs' => hs') (fun _ _ h => h)

/-- A rollback always runs to its end. -/
theorem post_rollback (l : PublishLocals) (s : System W) :
    Post (rollback underlay l) s
      (fun _ s' => ∃ w, Removals underlay l.newBlobKeys s.world w ∧ s' = s.rolledBack l w)
      (fun _ _ => False) := by
  simp only [rollback, post_bind]
  refine (post_rollback_keys l.newBlobKeys s).mono (fun _ s₁ hs₁ => ?_) (fun _ _ h => h)
  obtain ⟨w, hw, rfl⟩ := hs₁
  refine (post_rollback_digests l.newDigests _).mono (fun _ s' hs' => ?_) (fun _ _ h => h)
  exact ⟨w, hw, hs'⟩

end Loop

/-! ## The whole operation -/

/-- The state in which the `try` block starts. -/
def Publishing.start (s : System W) : Publishing W where
  system := { s with
    store := { s.store with nextIdCounter := s.store.nextIdCounter + 1 }
    idsDrawn := s.idsDrawn + 1 }
  locals := { replicaId := ⟨s.store.nextIdCounter⟩ }

/-- A publication that returned. -/
inductive Published (env : Env) (descriptor : CheckpointDescriptor) (data : Bytes)
    (s : System W) : System W → Prop where
  | intro {underlay : IBackend W} {slices : List ChunkSlice} {p : Publishing W} {w : W}
      (hadmitted : Admitted s descriptor underlay)
      (hslices : chunkStream env.hash data s.store.options.chunkSize = .ok slices)
      (hrounds : Rounds underlay slices (.start s) p)
      (hreads : Reads underlay p.system.world w)
      (htile : tileManifest p.locals.chunkSizes (sortedEntries p.locals) 0 =
        .ok (byteSize data)) :
      Published env descriptor data s
        { p.system with
          world := w
          store := publishedStore env descriptor data p
          idsDrawn := p.system.idsDrawn + 1 }

/-- Where a publication that had started writing was stopped: at a chunk, or after the last
one, by the read-back or a later check. -/
inductive Stopped (underlay : IBackend W) (rest : List ChunkSlice) (s : System W) :
    System W → Prop where
  | atChunk {slice : ChunkSlice} {later : List ChunkSlice} {s' : System W}
      (hrest : rest = slice :: later) (hfailed : AcquireFailed underlay slice s s') :
      Stopped underlay rest s s'
  | afterLoop {w : W} {c : AccountingSnapshot} (hrest : rest = [])
      (hreads : Reads underlay s.world w) :
      Stopped underlay rest s { s with world := w, store := { s.store with counters := c } }

/-- A publication that threw: it was rejected before anything was written, or it was stopped
and rolled back. -/
inductive PublishFailed (env : Env) (descriptor : CheckpointDescriptor) (data : Bytes)
    (s : System W) : System W → Prop where
  | rejected {c : AccountingSnapshot}
      (hrejected : ∀ underlay, ¬ Admitted s descriptor underlay) :
      PublishFailed env descriptor data s { s with store := { s.store with counters := c } }
  | interrupted {underlay : IBackend W} {done rest : List ChunkSlice} {p : Publishing W}
      {s' : System W} {w : W}
      (hadmitted : Admitted s descriptor underlay)
      (hslices : chunkStream env.hash data s.store.options.chunkSize = .ok (done ++ rest))
      (hrounds : Rounds underlay done (.start s) p)
      (hstopped : Stopped underlay rest p.system s')
      (hremovals : Removals underlay p.locals.newBlobKeys s'.world w) :
      PublishFailed env descriptor data s (s'.rolledBack p.locals w)

/-- Every publication returns what its loop has collected, or throws and is rolled back. -/
theorem post_publish_result (env : Env) (descriptor : CheckpointDescriptor) (data : Bytes)
    (s : System W) :
    Post (publish env descriptor data) s
      (fun r s' => ∃ underlay slices p w, Admitted s descriptor underlay ∧
        chunkStream env.hash data s.store.options.chunkSize = .ok slices ∧
        Rounds underlay slices (.start s) p ∧ Reads underlay p.system.world w ∧
        tileManifest p.locals.chunkSizes (sortedEntries p.locals) 0 = .ok (byteSize data) ∧
        r = publishResult env descriptor data p ∧
        s' = { p.system with
          world := w
          store := publishedStore env descriptor data p
          idsDrawn := p.system.idsDrawn + 1 })
      (fun _ s' => PublishFailed env descriptor data s s') := by
  simp only [publish, post_bind, post_get, post_from_except, post_next_id, post_with_locals,
    post_try_catch]
  refine (post_check_admission s descriptor).mono (fun underlay s₁ hs₁ => ?_) (fun _ s₁ hs₁ => ?_)
  · obtain ⟨rfl, hadmitted⟩ := hs₁
    refine ⟨fun slices hslices => ?_, fun e hthrows => ?_⟩
    swap
    · -- The configured chunk size has been checked, so chunking does not throw.
      rw [chunkStream, if_pos hadmitted.chunkSize] at hthrows
      simp at hthrows
    have hsizes : ∀ slice ∈ slices, byteSize slice.bytes ≠ 0 :=
      fun slice hin => (chunk_stream_slice_ok hslices hin).size_ne_zero
    simp only [publishBody, post_bind, post_get, post_on_system, post_throw]
    refine (post_publish_loop slices hsizes (.start s₁)).mono (fun _ p hrounds => ?_)
      (fun _ p hstop => ?_)
    · refine (post_finish_publish env descriptor data p).mono (fun _ s' hs' => ?_)
        (fun _ s' hs' => ?_)
      · obtain ⟨w, hreads, htile, hresult, rfl⟩ := hs'
        exact ⟨underlay, slices, p, w, hadmitted, hslices, hrounds, hreads, htile, hresult, rfl⟩
      · obtain ⟨w, c, hreads, rfl⟩ := hs'
        refine (post_rollback p.locals _).mono (fun _ s'' hs'' => ?_) (fun _ _ h => h.elim)
        obtain ⟨w', hremovals, rfl⟩ := hs''
        exact .interrupted hadmitted (by simpa using hslices) hrounds (.afterLoop rfl hreads)
          hremovals
    · obtain ⟨done, slice, later, q, rfl, hrounds, hlocals, hfailed⟩ := hstop
      refine (post_rollback p.locals _).mono (fun _ s'' hs'' => ?_) (fun _ _ h => h.elim)
      obtain ⟨w', hremovals, rfl⟩ := hs''
      rw [hlocals] at hremovals ⊢
      exact .interrupted hadmitted hslices hrounds (.atChunk rfl hfailed) hremovals
  · obtain ⟨hrejected, c, rfl⟩ := hs₁
    exact .rejected hrejected

/-- Every publication is one of the two. -/
theorem post_publish (env : Env) (descriptor : CheckpointDescriptor) (data : Bytes)
    (s : System W) :
    Post (publish env descriptor data) s (fun _ s' => Published env descriptor data s s')
      (fun _ s' => PublishFailed env descriptor data s s') := by
  refine (post_publish_result env descriptor data s).mono (fun r s' h => ?_) (fun _ _ h => h)
  obtain ⟨underlay, slices, p, w, hadmitted, hslices, hrounds, hreads, htile, -, rfl⟩ := h
  exact .intro hadmitted hslices hrounds hreads htile

/-! ## What a publication leaves alone -/

section Frames

variable {underlay : IBackend W} {slice : ChunkSlice}

/-- A miss changes the counters only. -/
theorem Missed.store_eq {s s' : System W} (h : Missed underlay slice s s') :
    ∃ c, s'.store = { s.store with counters := c } := by
  cases h with
  | absent => exact ⟨s.store.counters, rfl⟩
  | damaged => exact ⟨_, rfl⟩

/-- Acquiring a chunk changes the dedup table, a counter and nothing else of the store. -/
theorem Acquired.store_eq {p q : Publishing W} {blobId : BlobId}
    (h : Acquired underlay slice p blobId q) :
    ∃ t c, q.system.store = { p.system.store with dedup := t, counters := c } := by
  cases h with
  | reused => exact ⟨_, p.system.store.counters, rfl⟩
  | written hmissed =>
      obtain ⟨c, hstore⟩ := hmissed.store_eq
      exact ⟨_, c, by rw [hstore]⟩

/-- Acquiring a chunk records nothing about it. -/
theorem Acquired.locals_eq {p q : Publishing W} {blobId : BlobId}
    (h : Acquired underlay slice p blobId q) :
    q.locals.chunkDescriptors = p.locals.chunkDescriptors ∧
      q.locals.manifestEntries = p.locals.manifestEntries ∧
      q.locals.replicaId = p.locals.replicaId := by
  cases h with
  | reused => exact ⟨rfl, rfl, rfl⟩
  | written => exact ⟨rfl, rfl, rfl⟩

/-- Acquiring a blob does not read the clock. -/
theorem Acquired.ticks_eq {p q : Publishing W} {blobId : BlobId}
    (h : Acquired underlay slice p blobId q) : q.system.ticks = p.system.ticks := by
  cases h with
  | reused => rfl
  | written hmissed =>
      cases hmissed with
      | absent => rfl
      | damaged => rfl

/-- The rounds do not read the clock. -/
theorem Rounds.ticks_eq {slices : List ChunkSlice} {p p' : Publishing W}
    (h : Rounds underlay slices p p') : p'.system.ticks = p.system.ticks := by
  induction h with
  | nil p => rfl
  | cons hacquired _ ih => exact ih.trans hacquired.ticks_eq

/-- The replica of a publication keeps its identity through the rounds. -/
theorem Rounds.replica_id {slices : List ChunkSlice} {p p' : Publishing W}
    (h : Rounds underlay slices p p') : p'.locals.replicaId = p.locals.replicaId := by
  induction h with
  | nil p => rfl
  | cons hacquired _ ih => exact ih.trans hacquired.locals_eq.2.2

/-- A placement that is registered stays registered. -/
theorem Rounds.find_placement {slices : List ChunkSlice} {p p' : Publishing W}
    (h : Rounds underlay slices p p') {id : PlacementId} {pd : PlacementDescriptor}
    (hfind : p.system.store.placements.find id = some pd) :
    p'.system.store.placements.find id = some pd := by
  induction h with
  | nil p => exact hfind
  | cons hacquired _ ih =>
      obtain ⟨_, _, hstore⟩ := hacquired.store_eq
      refine ih (UnorderedMap.find_emplace_of_some ?_)
      rw [hstore]
      exact hfind

/-- The rounds change the dedup table, the blobs, the placements, the counters and the identity
counter, and nothing else of the store. -/
theorem Rounds.store_eq {slices : List ChunkSlice} {p p' : Publishing W}
    (h : Rounds underlay slices p p') :
    ∃ t c blobs placements n, p'.system.store =
      { p.system.store with
        dedup := t, counters := c, blobs := blobs, placements := placements
        nextIdCounter := n } := by
  induction h with
  | nil p => exact ⟨_, _, _, _, _, rfl⟩
  | @cons slice rest p q p' blobId hacquired _ ih =>
      obtain ⟨t, c, hstore⟩ := hacquired.store_eq
      obtain ⟨t', c', blobs, placements, n, hstore'⟩ := ih
      refine ⟨t', c', blobs, placements, n, ?_⟩
      rw [hstore']
      simp only [recordChunk, hstore]

/-- A chunk that is not acquired changes the counters only. -/
theorem AcquireFailed.store_eq {s s' : System W} (h : AcquireFailed underlay slice s s') :
    ∃ c, s'.store = { s.store with counters := c } := by
  cases h with
  | lookup => exact ⟨s.store.counters, rfl⟩
  | verify => exact ⟨s.store.counters, rfl⟩
  | reference => exact ⟨s.store.counters, rfl⟩
  | putTemp hmissed => exact hmissed.store_eq
  | commit hmissed => exact hmissed.store_eq

/-- So does a loop that stops. -/
theorem Stopped.store_eq {rest : List ChunkSlice} {s s' : System W}
    (h : Stopped underlay rest s s') : ∃ c, s'.store = { s.store with counters := c } := by
  cases h with
  | atChunk _ hfailed => exact hfailed.store_eq
  | afterLoop => exact ⟨_, rfl⟩

end Frames

/-- A failed publication changes the dedup table, the blobs, the placements, the counters and the
identity counter, and nothing else of the store. -/
theorem PublishFailed.store_eq {env : Env} {descriptor : CheckpointDescriptor} {data : Bytes}
    {s s' : System W} (h : PublishFailed env descriptor data s s') :
    ∃ t c blobs placements n, s'.store =
      { s.store with
        dedup := t, counters := c, blobs := blobs, placements := placements
        nextIdCounter := n } := by
  cases h with
  | rejected => exact ⟨_, _, _, _, _, rfl⟩
  | @interrupted _ _ _ p _ _ _ _ hrounds hstopped _ =>
      obtain ⟨c, hstopped⟩ := hstopped.store_eq
      obtain ⟨t, _, blobs, placements, n, hrounds⟩ := hrounds.store_eq
      refine ⟨rolledBack p.locals.newDigests t, c, blobs, placements, n, ?_⟩
      simp only [System.rolledBack, hstopped, hrounds]
      rfl

/-- The record that a publication enters. -/
def publishedRecord (env : Env) (descriptor : CheckpointDescriptor) (data : Bytes)
    (p : Publishing W) : CheckpointRecord :=
  newRecord descriptor (newManifest env.hash descriptor data ⟨p.system.store.nextIdCounter⟩
    (sortedEntries p.locals) (env.hash.sha256 data)) p.locals

/-- The records after a publication. -/
theorem Rounds.find_published {underlay : IBackend W} {slices : List ChunkSlice} {s : System W}
    {p : Publishing W} (h : Rounds underlay slices (.start s) p) {descriptor : CheckpointDescriptor}
    (hfresh : s.store.checkpoints.find descriptor.id = none) (env : Env) (data : Bytes)
    (id : CheckpointId) :
    (publishedStore env descriptor data p).checkpoints.find id =
      if id = descriptor.id then some (publishedRecord env descriptor data p)
      else s.store.checkpoints.find id := by
  obtain ⟨_, _, _, _, _, hstore⟩ := h.store_eq
  have hsame : p.system.store.checkpoints = s.store.checkpoints := by
    rw [hstore]
    rfl
  show (p.system.store.checkpoints.emplace descriptor.id
    (publishedRecord env descriptor data p)).find id = _
  rw [hsame, UnorderedMap.find_emplace]
  by_cases hid : id = descriptor.id
  · rw [if_pos hid, if_pos hid, hfresh]
    rfl
  · rw [if_neg hid, if_neg hid]

/-- A record after a publication is the new one or one from before. -/
theorem Rounds.published_cases {underlay : IBackend W} {slices : List ChunkSlice} {s : System W}
    {p : Publishing W} (h : Rounds underlay slices (.start s) p) {descriptor : CheckpointDescriptor}
    (hfresh : s.store.checkpoints.find descriptor.id = none) {env : Env} {data : Bytes}
    {id : CheckpointId} {rec : CheckpointRecord}
    (hfind : (publishedStore env descriptor data p).checkpoints.find id = some rec) :
    rec = publishedRecord env descriptor data p ∨ s.store.checkpoints.find id = some rec := by
  rw [h.find_published hfresh] at hfind
  split at hfind
  · exact .inl (Option.some.inj hfind).symm
  · exact .inr hfind

/-- The replicas after a publication: one that was known under the drawn identity stays. -/
theorem Rounds.find_published_replica {underlay : IBackend W} {slices : List ChunkSlice}
    {s : System W} {p : Publishing W} (h : Rounds underlay slices (.start s) p) (env : Env)
    (descriptor : CheckpointDescriptor) (data : Bytes) (rid : ReplicaId) :
    (publishedStore env descriptor data p).replicas.find rid =
      if rid = p.locals.replicaId then some ((s.store.replicas.find p.locals.replicaId).getD
        (newReplica p.locals.replicaId s.store.primaryBackendId p.locals.writeSize))
      else s.store.replicas.find rid := by
  obtain ⟨_, _, _, _, _, hstore⟩ := h.store_eq
  have hreplicas : p.system.store.replicas = s.store.replicas := by
    rw [hstore]
    rfl
  have hprimary : p.system.store.primaryBackendId = s.store.primaryBackendId := by
    rw [hstore]
    rfl
  show (p.system.store.replicas.emplace p.locals.replicaId _).find rid = _
  rw [hreplicas, hprimary, UnorderedMap.find_emplace]

/-- The replicas of before are kept. -/
theorem Rounds.find_old_replica {underlay : IBackend W} {slices : List ChunkSlice}
    {s : System W} {p : Publishing W} (h : Rounds underlay slices (.start s) p) (env : Env)
    (descriptor : CheckpointDescriptor) (data : Bytes) {rid : ReplicaId} {rd : ReplicaDescriptor}
    (hfind : s.store.replicas.find rid = some rd) :
    (publishedStore env descriptor data p).replicas.find rid = some rd := by
  rw [h.find_published_replica]
  split
  · next hrid => rw [← hrid, hfind, Option.getD_some]
  · exact hfind

/-- The new replica is entered. -/
theorem Rounds.find_new_replica {underlay : IBackend W} {slices : List ChunkSlice}
    {s : System W} {p : Publishing W} (h : Rounds underlay slices (.start s) p) (env : Env)
    (descriptor : CheckpointDescriptor) (data : Bytes)
    (hfresh : s.store.replicas.find p.locals.replicaId = none) :
    (publishedStore env descriptor data p).replicas.find p.locals.replicaId =
      some (newReplica p.locals.replicaId s.store.primaryBackendId p.locals.writeSize) := by
  rw [h.find_published_replica, if_pos rfl, hfresh, Option.getD_none]

/-- A publication changes neither the options nor the backends. -/
theorem Published.store_eq {env : Env} {descriptor : CheckpointDescriptor} {data : Bytes}
    {s s' : System W} (h : Published env descriptor data s s') :
    s'.store.options = s.store.options ∧ s'.store.backends = s.store.backends ∧
      s'.store.primaryBackendId = s.store.primaryBackendId := by
  cases h with
  | intro _ _ hrounds =>
      obtain ⟨_, _, _, _, _, hstore⟩ := hrounds.store_eq
      simp only [publishedStore, commitRecord, hstore]
      exact ⟨rfl, rfl, rfl⟩

end CheckpointStore
