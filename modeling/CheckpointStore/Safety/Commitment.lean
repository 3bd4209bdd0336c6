import CheckpointStore.Safety.Restorable

/-!
# Admitted publications commit

Over a lawful backend that answers every call nothing stops a publication that is admitted. The
entries of the dedup table are those of published contents (`EntriesOf`), so with a hash that
separates these no entry stands in the way; what is read back is what was written; and the manifest
tiles the data if chunks of different content have different identities. `publish_then_restore`
puts this together with the restore that may follow at once.
-/

namespace CheckpointStore

open Foundation Foundation.Procedure

variable {W : Type}

/-! ## The entries of the dedup table -/

section Table

variable {H : StreamHash} {C : Bytes → Prop} {n : Nat} {t t' t'' : DedupTable}

/-- Every entry is that of one of the contents, and has at most `n` references. -/
def EntriesOf (H : StreamHash) (C : Bytes → Prop) (n : Nat) (t : DedupTable) : Prop :=
  ∀ d e, t.find d = some e → (∃ x, C x ∧ H.sha256 x = d ∧ e.physicalSize = byteSize x) ∧
    e.integrity = .verified ∧ e.refcount.toNat ≤ n

theorem EntriesOf.mono (h : EntriesOf H C n t) {m : Nat} (hle : n ≤ m) : EntriesOf H C m t := by
  intro d e hfind
  obtain ⟨hcontent, hintegrity, hcount⟩ := h d e hfind
  exact ⟨hcontent, hintegrity, Nat.le_trans hcount hle⟩

/-- Entries have been dropped or have lost references, and nothing else has happened. -/
def Shrinks (t t' : DedupTable) : Prop :=
  ∀ d e', t'.find d = some e' → ∃ e, t.find d = some e ∧ e'.physicalSize = e.physicalSize ∧
    e'.integrity = e.integrity ∧ e'.refcount.toNat ≤ e.refcount.toNat

theorem Shrinks.refl (t : DedupTable) : Shrinks t t :=
  fun _ e hfind => ⟨e, hfind, rfl, rfl, Nat.le_refl _⟩

theorem Shrinks.trans (h : Shrinks t t') (h' : Shrinks t' t'') : Shrinks t t'' := by
  intro d e'' hfind''
  obtain ⟨e', hfind', hsize', hintegrity', hcount'⟩ := h' d e'' hfind''
  obtain ⟨e, hfind, hsize, hintegrity, hcount⟩ := h d e' hfind'
  exact ⟨e, hfind, hsize'.trans hsize, hintegrity'.trans hintegrity, Nat.le_trans hcount' hcount⟩

/-- A table that shrinks keeps what its entries are. -/
theorem Shrinks.entries_of (h : Shrinks t t') (ht : EntriesOf H C n t) : EntriesOf H C n t' := by
  intro d e' hfind'
  obtain ⟨e, hfind, hsize, hintegrity, hcount⟩ := h d e' hfind'
  obtain ⟨⟨x, hx, hhash, hsize'⟩, hintegrity', hcount'⟩ := ht d e hfind
  exact ⟨⟨x, hx, hhash, hsize.trans hsize'⟩, hintegrity.trans hintegrity',
    Nat.le_trans hcount hcount'⟩

theorem shrinks_foldl {α : Type} {f : DedupTable → α → DedupTable} (hf : ∀ t a, Shrinks t (f t a))
    (l : List α) (t : DedupTable) : Shrinks t (l.foldl f t) := by
  induction l generalizing t with
  | nil => exact .refl t
  | cons a rest ih => exact (hf t a).trans (ih (f t a))

theorem shrinks_release_reference (t : DedupTable) (d : Digest) :
    Shrinks t (t.releaseReference d).2 := by
  intro d' e' hfind'
  rw [DedupTable.find_release_reference] at hfind'
  by_cases hd : d' = d
  · rw [if_pos hd] at hfind'
    obtain ⟨e, hfind, rfl⟩ := Option.map_eq_some_iff.mp hfind'
    refine ⟨e, hd ▸ hfind, rfl, rfl, ?_⟩
    have hcount := DedupTable.refcount_release_reference t d d
    rw [DedupTable.refcount_of_find hfind, DedupTable.refcount, DedupTable.find_release_reference,
      if_pos rfl, hfind, Option.map_some, if_pos rfl] at hcount
    dsimp only at hcount ⊢
    omega
  · rw [if_neg hd] at hfind'
    exact ⟨e', hfind', rfl, rfl, Nat.le_refl _⟩

theorem shrinks_release_until_orphan (t : DedupTable) (d : Digest) :
    Shrinks t (t.releaseUntilOrphan d).2 := by
  intro d' e' hfind'
  rw [DedupTable.find_release_until_orphan] at hfind'
  split at hfind'
  · cases hfind'
  · exact ⟨e', hfind', rfl, rfl, Nat.le_refl _⟩

/-- A rollback shrinks the table. -/
theorem shrinks_rolled_back (digests : List Digest) (t : DedupTable) :
    Shrinks t (rolledBack digests t) :=
  shrinks_foldl (fun t d =>
    (shrinks_release_reference t d).trans (shrinks_release_until_orphan _ d)) digests t

/-! ## What the steps do to the entries -/

/-- So does a sweep. -/
theorem shrinks_sweep (eligible : List CheckpointId) (store : Store W) :
    Shrinks store.dedup (sweep eligible store).dedup := by
  unfold sweep
  induction eligible generalizing store with
  | nil => exact .refl _
  | cons cid rest ih =>
      refine Shrinks.trans ?_ (ih (sweepCheckpoint store cid))
      unfold sweepCheckpoint
      split
      · exact .refl _
      · split
        · exact .refl _
        · exact shrinks_foldl
            (fun t (cd : ChunkDescriptor) => shrinks_release_reference t cd.digest) _ _

theorem Reclaims.shrinks {reachable bids : List BlobId} {s s' : System W}
    (h : Reclaims reachable bids s s') : Shrinks s.store.dedup s'.store.dedup := by
  induction h with
  | nil s => exact .refl _
  | cons hround _ ih =>
      refine Shrinks.trans ?_ ih
      cases hround with
      | deferred => exact .refl _
      | @forgot bd removedAny _ _ _ _ _ _ _ =>
          show Shrinks _ (if removedAny then _ else _)
          split
          · exact shrinks_release_until_orphan _ _
          · exact .refl _

/-- So does a collection. -/
theorem GcRan.shrinks {env : Env} {s s' : System W} (h : GcRan env s s') :
    Shrinks s.store.dedup s'.store.dedup := by
  cases h with
  | @completed eligible _ _ _ _ _ _ hreclaims =>
      exact (shrinks_sweep eligible s.store).trans hreclaims.shrinks
  | @interrupted eligible _ _ _ _ _ _ _ _ _ _ _ hreclaims hthrew =>
      cases hthrew with
      | intro => exact (shrinks_sweep eligible s.store).trans hreclaims.shrinks

variable {b : IBackend W}

/-- Storing a chunk adds a reference, or an entry with one reference. -/
theorem Acquired.entries_of {slice : ChunkSlice} {p q : Publishing W} {blobId : BlobId}
    (h : Acquired b slice p blobId q) (hok : SliceOk H slice) (hcontent : C slice.bytes)
    (hp : EntriesOf H C n p.system.store.dedup) : EntriesOf H C (n + 1) q.system.store.dedup := by
  cases h with
  | @reused e w t hfind hverify hadd =>
      intro d e' hfind'
      obtain ⟨hsource, hintegrity, hcount⟩ := hp _ _ hfind
      have hentries := (DedupTable.add_reference_cases hfind hadd).2 d
      have hraised := refcount_add_reference hfind hadd d
      rw [DedupTable.refcount_of_find (show t.find d = some e' from hfind')] at hraised
      rw [show t.find d = some e' from hfind'] at hentries
      by_cases hd : d = slice.digest
      · rw [if_pos hd, Option.some.injEq] at hentries
        rw [if_pos hd, hd, DedupTable.refcount_of_find hfind] at hraised
        refine ⟨?_, by rw [hentries]; exact hintegrity, by omega⟩
        rw [hentries, hd]
        exact hsource
      · rw [if_neg hd] at hentries
        obtain ⟨hsource', hintegrity', hcount'⟩ := hp d e' hentries.symm
        exact ⟨hsource', hintegrity', by omega⟩
  | @written s w₁ w₂ t added hmissed hput hcommit hinsert =>
      rcases DedupTable.insert_cases hinsert with ⟨_, hentries⟩ | ⟨_, _, _, rfl⟩
      · intro d e' hfind'
        have hfind'' := (hentries d).symm.trans hfind'
        by_cases hd : d = slice.digest
        · rw [if_pos hd, Option.some.injEq] at hfind''
          subst hfind''
          refine ⟨⟨slice.bytes, hcontent, by rw [hd, hok.digest_eq], rfl⟩, rfl, ?_⟩
          show (1 : UInt64).toNat ≤ n + 1
          exact Nat.le_add_left 1 n
        · rw [if_neg hd] at hfind''
          exact hp.mono (Nat.le_succ n) d e' hfind''
      · exact hp.mono (Nat.le_succ n)

/-- Every reference comes with a placement of its own, so the draws bound the references. -/
theorem Rounds.entries_of {slices : List ChunkSlice} {p p' : Publishing W}
    (h : Rounds b slices p p') (hok : ∀ slice ∈ slices, SliceOk H slice ∧ C slice.bytes)
    (hp : EntriesOf H C p.system.idsDrawn p.system.store.dedup) :
    EntriesOf H C p'.system.idsDrawn p'.system.store.dedup := by
  induction h with
  | nil p => exact hp
  | @cons slice rest p q p' blobId hacquired _ ih =>
      obtain ⟨hslice, hcontent⟩ := hok slice (by simp)
      refine ih (fun slice' hin => hok slice' (List.mem_cons_of_mem _ hin)) ?_
      show EntriesOf H C (q.system.idsDrawn + 1) q.system.store.dedup
      rw [hacquired.ids_drawn]
      exact hacquired.entries_of hslice hcontent hp

/-- Every step but a restart keeps the entries those of published contents. -/
theorem Transition.entries_of {env : Env} {R : W → W → Prop} {s s' : System W} {e : Event W}
    (h : Transition env R s e s') (hreopens : e.reopens = false)
    (hcontents : ∀ x ∈ e.contents env.hash s.store.options.chunkSize, C x)
    (hs : EntriesOf env.hash C s.idsDrawn s.store.dedup) :
    EntriesOf env.hash C s'.idsDrawn s'.store.dedup := by
  have hmono := h.ids_drawn_le hreopens
  cases h with
  | quiet _ h =>
      intro d e hfind
      rw [h.dedup d] at hfind
      exact hs.mono hmono d e hfind
  | published h =>
      cases h with
      | @intro underlay slices p w hadmitted hslices hrounds _ _ =>
          have hloop := hrounds.entries_of (fun slice hin => ⟨chunk_stream_slice_ok hslices hin,
            hcontents _ (mem_contents_publish hslices hin)⟩) (hs.mono (Nat.le_succ _))
          exact hloop.mono (Nat.le_succ _)
  | publishFailed h =>
      cases h with
      | rejected => exact hs
      | @interrupted underlay done rest p s₁ w hadmitted hslices hrounds hstopped _ =>
          have hloop := hrounds.entries_of (fun slice hin =>
            have hin' := List.mem_append_left rest hin
            ⟨chunk_stream_slice_ok hslices hin',
              hcontents _ (mem_contents_publish hslices hin')⟩) (hs.mono (Nat.le_succ _))
          obtain ⟨_, hstore⟩ := hstopped.store_eq
          refine (shrinks_rolled_back _ _).entries_of ?_
          show EntriesOf _ _ s₁.idsDrawn s₁.store.dedup
          rw [hstopped.ids_drawn, hstore]
          exact hloop
  | gcRan h =>
      rw [h.ids_drawn]
      exact h.shrinks.entries_of hs
  | reopened => simp [Event.reopens] at hreopens

end Table

/-! ## The loop runs through -/

section Loop

variable {H : StreamHash} {C : Bytes → Prop} {b : IBackend W} {view : ObjectView W}
  {healthy : W → Prop} {slice : ChunkSlice}

theorem Missed.still_healthy {s s' : System W} (h : Missed b slice s s')
    (hwrites : b.Writes view healthy) (hs : healthy s.world) : healthy s'.world := by
  cases h with
  | absent => exact hs
  | damaged _ _ hverify => exact (hwrites.verify _ _ _ hs).of_ok hverify

theorem Acquired.still_healthy {p q : Publishing W} {blobId : BlobId}
    (h : Acquired b slice p blobId q) (hb : b.Lawful H view) (hwrites : b.Writes view healthy)
    (hp : healthy p.system.world) : healthy q.system.world := by
  cases h with
  | reused _ hverify => exact (hwrites.verify _ _ _ hp).of_ok hverify
  | written hmissed hput hcommit =>
      have hput' := (hwrites.put_temp _ _ _ (hmissed.still_healthy hwrites hp)).of_ok hput
      have hstaged := ((hb.put_temp _ _ _).of_ok hput).2
      exact (hwrites.commit _ _ hput' (by rw [hstaged]; simp)).of_ok hcommit

/-- The chunk loop keeps the backend healthy. -/
theorem Rounds.still_healthy {slices : List ChunkSlice} {p p' : Publishing W}
    (h : Rounds b slices p p') (hb : b.Lawful H view) (hwrites : b.Writes view healthy)
    (hp : healthy p.system.world) : healthy p'.system.world := by
  induction h with
  | nil p => exact hp
  | cons hacquired _ ih => exact ih (hacquired.still_healthy hb hwrites hp)

/-- Nothing can go wrong with a chunk whose content the hash separates from the others. -/
theorem AcquireFailed.not_healthy {s s' : System W} {n : Nat} (h : AcquireFailed b slice s s')
    (hb : b.Lawful H view) (hwrites : b.Writes view healthy) (hinjective : SeparatesBy H C)
    (hok : SliceOk H slice) (hcontent : C slice.bytes) (hentries : EntriesOf H C n s.store.dedup)
    (hroom : n + 1 < 2 ^ 64) (hs : healthy s.world) : False := by
  -- The entry of the digest, if there is one, is the entry of the chunk's content.
  have hentry : ∀ e, s.store.dedup.find slice.digest = some e →
      e.physicalSize = byteSize slice.bytes ∧ e.integrity = .verified ∧
        e.refcount ≠ DedupTable.maxRefcount := by
    intro e hfind
    obtain ⟨⟨x, hx, hhash, hsize⟩, hintegrity, hcount⟩ := hentries _ _ hfind
    have hsame : x = slice.bytes := hinjective x _ hx hcontent (hhash.trans hok.digest_eq)
    refine ⟨by rw [hsize, hsame], hintegrity, fun hmax => ?_⟩
    rw [hmax, show DedupTable.maxRefcount.toNat = 2 ^ 64 - 1 from rfl] at hcount
    omega
  cases h with
  | lookup hlookup =>
      rw [DedupTable.lookup, if_neg hok.size_ne_zero] at hlookup
      cases hfind : s.store.dedup.find slice.digest with
      | none => simp [hfind] at hlookup
      | some e =>
          obtain ⟨hsize, hintegrity, _⟩ := hentry e hfind
          simp [hfind, hsize, hintegrity] at hlookup
  | verify _ hverify => exact (hwrites.verify _ _ _ hs).of_error hverify
  | reference hverify hadd =>
      rw [DedupTable.addReference] at hadd
      cases hfind : s.store.dedup.find slice.digest with
      | none => simp [hfind] at hadd
      | some e =>
          obtain ⟨_, hintegrity, hmax⟩ := hentry e hfind
          simp [hfind, hintegrity, hmax] at hadd
  | putTemp hmissed hput =>
      exact (hwrites.put_temp _ _ _ (hmissed.still_healthy hwrites hs)).of_error hput
  | commit hmissed hput hcommit =>
      have hput' := (hwrites.put_temp _ _ _ (hmissed.still_healthy hwrites hs)).of_ok hput
      have hstaged := ((hb.put_temp _ _ _).of_ok hput).2
      exact (hwrites.commit _ _ hput' (by rw [hstaged]; simp)).of_error hcommit

/-- On a healthy backend the chunk loop does not throw. -/
theorem post_publish_loop_healthy (hb : b.Lawful H view) (hwrites : b.Writes view healthy)
    (hinjective : SeparatesBy H C) {slices : List ChunkSlice} {p : Publishing W}
    (hok : ∀ slice ∈ slices, SliceOk H slice ∧ C slice.bytes)
    (hentries : EntriesOf H C p.system.idsDrawn p.system.store.dedup)
    (hroom : p.system.idsDrawn + slices.length < 2 ^ 64) (hp : healthy p.system.world) :
    Post (forM slices (publishSlice b)) p
      (fun _ p' => Rounds b slices p p' ∧ healthy p'.system.world) (fun _ _ => False) := by
  refine (post_publish_loop slices (fun slice hin => (hok slice hin).1.size_ne_zero) p).mono
    (fun _ p' hrounds => ⟨hrounds, hrounds.still_healthy hb hwrites hp⟩) (fun _ _ hstop => ?_)
  obtain ⟨done, slice, rest, q, rfl, hrounds, _, hfailed⟩ := hstop
  obtain ⟨hslice, hcontent⟩ := hok slice (by simp)
  have hdrawn := hrounds.ids_drawn
  rw [List.length_append, List.length_cons] at hroom
  exact hfailed.not_healthy hb hwrites hinjective hslice hcontent
    (hrounds.entries_of (fun slice' hin => hok slice' (List.mem_append_left _ hin)) hentries)
    (by omega) (hrounds.still_healthy hb hwrites hp)

end Loop

/-! ## Read-back and manifest -/

section Finish

variable {b : IBackend W}

/-- The chunk descriptors that the rounds append. -/
theorem Rounds.chunk_descriptors {slices : List ChunkSlice} {p p' : Publishing W}
    (h : Rounds b slices p p') :
    p'.locals.chunkDescriptors.map (fun cd => (cd.digest, cd.physicalSize)) =
      p.locals.chunkDescriptors.map (fun cd => (cd.digest, cd.physicalSize)) ++
        slices.map fun slice => (slice.digest, byteSize slice.bytes) := by
  induction h with
  | nil p => simp
  | @cons slice rest p q p' blobId hacquired _ ih =>
      rw [ih, show (recordChunk slice blobId q).locals.chunkDescriptors =
        q.locals.chunkDescriptors ++ [newChunk slice blobId ⟨q.system.store.nextIdCounter⟩]
        from rfl, hacquired.locals_eq.1, List.map_append, List.append_assoc]
      rfl

theorem Acquired.chunk_sizes {slice : ChunkSlice} {p q : Publishing W} {blobId : BlobId}
    (h : Acquired b slice p blobId q) : q.locals.chunkSizes = p.locals.chunkSizes := by
  cases h with
  | reused => rfl
  | written => rfl

/-- The recorded sizes are those of the chunks, whichever chunk comes first. -/
theorem Rounds.chunk_sizes {slices all : List ChunkSlice} {p p' : Publishing W}
    (h : Rounds b slices p p') (hall : ∀ slice ∈ slices, slice ∈ all)
    (hdistinct : DistinctChunks all)
    (hp : ∀ slice ∈ all, ∀ size, p.locals.chunkSizes.find (chunkIdFromDigest slice.digest) =
      some size → size = byteSize slice.bytes) :
    (∀ slice ∈ all, ∀ size, p'.locals.chunkSizes.find (chunkIdFromDigest slice.digest) =
      some size → size = byteSize slice.bytes) ∧
    (∀ id size, p.locals.chunkSizes.find id = some size →
      p'.locals.chunkSizes.find id = some size) ∧
    ∀ slice ∈ slices, p'.locals.chunkSizes.find (chunkIdFromDigest slice.digest) ≠ none := by
  induction h with
  | nil p => exact ⟨hp, fun _ _ hfind => hfind, fun slice hin => by simp at hin⟩
  | @cons slice rest p q p' blobId hacquired _ ih =>
      have hin : slice ∈ all := hall slice (by simp)
      have hfind : ∀ id, (recordChunk slice blobId q).locals.chunkSizes.find id =
          (p.locals.chunkSizes.emplace (chunkIdFromDigest slice.digest)
            (byteSize slice.bytes)).find id := by
        intro id
        rw [← hacquired.chunk_sizes]
        rfl
      have hkeeps : ∀ id size, p.locals.chunkSizes.find id = some size →
          (recordChunk slice blobId q).locals.chunkSizes.find id = some size :=
        fun id size hold => (hfind id).trans (UnorderedMap.find_emplace_of_some hold)
      have hnew : (recordChunk slice blobId q).locals.chunkSizes.find
          (chunkIdFromDigest slice.digest) = some (byteSize slice.bytes) := by
        rw [hfind, UnorderedMap.find_emplace, if_pos rfl]
        cases hold : p.locals.chunkSizes.find (chunkIdFromDigest slice.digest) with
        | none => rfl
        | some size => rw [hp slice hin size hold]; rfl
      obtain ⟨hsizes, hkept, hrest⟩ := ih (fun a ha => hall a (List.mem_cons_of_mem _ ha))
        fun a ha size hsize => by
          by_cases hid : chunkIdFromDigest a.digest = chunkIdFromDigest slice.digest
          · rw [hid, hnew, Option.some.injEq] at hsize
            rw [← hsize, hdistinct a ha slice hin hid]
          · rw [hfind, UnorderedMap.find_emplace, if_neg hid] at hsize
            exact hp a ha size hsize
      refine ⟨hsizes, fun id size hold => hkept id size (hkeeps id size hold), fun a ha => ?_⟩
      rcases List.mem_cons.mp ha with rfl | ha
      · rw [hkept _ _ hnew]
        simp
      · exact hrest a ha

/-- Chunks laid end to end tile the data. -/
theorem tile_manifest_contiguous {sizes : UnorderedMap ChunkId UInt64} {slices : List ChunkSlice}
    {offset : Nat} (hcontiguous : Contiguous offset slices)
    (hsizes : ∀ slice ∈ slices, sizes.find (chunkIdFromDigest slice.digest) =
      some (byteSize slice.bytes)) :
    tileManifest sizes (slices.map fun slice =>
        { chunkId := chunkIdFromDigest slice.digest, logicalOffset := slice.range.logicalOffset })
        (UInt64.ofNat offset) =
      .ok (UInt64.ofNat (offset + (slices.map ChunkSlice.bytes).flatten.length)) := by
  induction slices generalizing offset with
  | nil => rfl
  | cons slice rest ih =>
      obtain ⟨hoffset, hrest⟩ := hcontiguous
      have hlater := ih hrest fun a ha => hsizes a (List.mem_cons_of_mem _ ha)
      rw [List.map_cons, tileManifest, if_neg (by simp [hoffset])]
      simp only [hsizes slice (by simp)]
      rw [List.map_cons, List.flatten_cons, List.length_append, ← Nat.add_assoc, ← hlater,
        UInt64.ofNat_add offset]
      rfl

/-- The object of a chunk is there, and is what its descriptor says. -/
structure Stored (H : StreamHash) (view : ObjectView W) (w : W) (cd : ChunkDescriptor)
    (slice : ChunkSlice) : Prop where
  object : view.objects w (blobKey cd.digest) = some slice.bytes
  size : byteSize slice.bytes = cd.physicalSize
  digest : H.sha256 slice.bytes = cd.digest

variable {env : Env} {view : ObjectView W} {healthy : W → Prop}

/-- Nor does reading back. -/
theorem post_read_back_healthy (hserves : b.Serves view healthy) {chunks : List ChunkDescriptor}
    {slices : List ChunkSlice} {s : System W}
    (hstored : List.Forall₂ (Stored env.hash view s.world) chunks slices) (hs : healthy s.world)
    (combined : env.hash.State) :
    Post (readBack env b chunks combined) s
      (fun combined' s' =>
        combined' = (slices.map ChunkSlice.bytes).foldl env.hash.update combined ∧
        healthy s'.world)
      (fun _ _ => False) := by
  induction chunks generalizing slices s combined with
  | nil =>
      cases hstored
      exact ⟨rfl, hs⟩
  | cons cd rest ih =>
      cases hstored with
      | @cons _ slice _ slices hfirst hrest =>
          simp only [readBack, post_bind, post_call_backend]
          refine (hserves.read _ _ _ hs hfirst.object).mono (fun rb w hw => ?_) (fun _ _ h => h)
          obtain ⟨rfl, hsame, hw⟩ := hw
          rw [if_neg (by simp [hfirst.size]), if_neg (by simp [hfirst.digest])]
          refine ih (s := { s with world := w }) (hrest.imp fun _ _ h => ?_) hw _
          exact ⟨by rw [hsame]; exact h.object, h.size, h.digest⟩

/-- What was written is read back, and the record is entered if the manifest tiles the data. -/
theorem post_finish_publish_healthy (hserves : b.Serves view healthy) {p : Publishing W}
    {slices : List ChunkSlice} {data : Bytes} (descriptor : CheckpointDescriptor)
    (hstored : List.Forall₂ (Stored env.hash view p.system.world) p.locals.chunkDescriptors slices)
    (hdata : (slices.map ChunkSlice.bytes).flatten = data) (hs : healthy p.system.world) :
    Post (finishPublish env b descriptor data p.locals) p.system
      (fun _ s' => healthy s'.world)
      (fun _ _ => tileManifest p.locals.chunkSizes (sortedEntries p.locals) 0 ≠
        .ok (byteSize data)) := by
  simp only [finishPublish, post_bind]
  refine (post_read_back_healthy hserves hstored hs _).mono (fun combined s' h => ?_)
    (fun _ _ h => h.elim)
  obtain ⟨hcombined, hs'⟩ := h
  have hdigest : env.hash.final combined = env.hash.sha256 data := by
    rw [hcombined, env.hash.final_foldl, hdata]
    rfl
  simp only [hdigest, ne_eq, not_true_eq_false, if_false, post_bind, post_from_except, post_ite,
    post_throw_store_error, post_next_id, post_modify_store, post_pure]
  refine ⟨fun expected htile => ⟨fun hother => ?_, fun _ => hs'⟩, fun e htile => ?_⟩
  · rw [htile, Except.ok.injEq]
    exact hother
  · rw [htile]
    exact fun h => by cases h

end Finish

/-! ## Publishing and restoring -/

section Publish

variable {env : Env} {b : IBackend W} {view : ObjectView W} {healthy : W → Prop}
  {C : Bytes → Prop} {s : System W} {descriptor : CheckpointDescriptor} {data : Bytes}
  {slices : List ChunkSlice}

/-- The descriptors of the loop describe what is in the backend. -/
theorem Stocking.stored {needed : Digest → Nat} {p : Publishing W}
    (h : Stocking env.hash view C needed p) (hinjective : SeparatesBy env.hash C)
    (hok : ∀ slice ∈ slices, SliceOk env.hash slice ∧ C slice.bytes)
    (hchunks : p.locals.chunkDescriptors.map (fun cd => (cd.digest, cd.physicalSize)) =
      slices.map fun slice => (slice.digest, byteSize slice.bytes)) :
    List.Forall₂ (Stored env.hash view p.system.world) p.locals.chunkDescriptors slices := by
  refine (forall₂_of_map_eq hchunks).imp fun cd slice hpair => ?_
  obtain ⟨hcd, hin, heq⟩ := hpair
  obtain ⟨hslice, hcontent⟩ := hok slice hin
  obtain ⟨hdigest, hsize⟩ := Prod.mk.injEq _ _ _ _ |>.mp heq
  -- The chunk is counted, so it has an entry whose object is not missing.
  have hcounted : 0 < countDigest cd.digest p.locals.chunkDescriptors :=
    List.countP_pos_iff.mpr ⟨cd, hcd, by simp⟩
  have hneeded := h.stocked.counted cd.digest
  have hpositive : p.system.store.dedup.refcount cd.digest ≠ 0 := by
    intro hzero
    rw [hzero, show (0 : UInt64).toNat = 0 from rfl] at hneeded
    omega
  obtain ⟨e, hentry⟩ := DedupTable.find_of_refcount_ne_zero hpositive
  rcases h.stocked.held _ _ hentry with ⟨x, hobject, hhash, _, hx⟩ | ⟨_, _, hnone⟩
  · have hsame : x = slice.bytes :=
      hinjective x _ hx hcontent (by rw [hhash, hdigest, hslice.digest_eq])
    exact ⟨by rw [hobject, hsame], hsize.symm, by rw [hdigest, hslice.digest_eq]⟩
  · omega

/-- An admitted publication commits, over a backend that answers every call, unless two of its
chunks share an identity. -/
theorem post_publish_healthy (hb : b.Lawful env.hash view) (hserves : b.Serves view healthy)
    (hwrites : b.Writes view healthy) (hinjective : SeparatesBy env.hash C)
    (hadmitted : Admitted s descriptor b)
    (hslices : chunkStream env.hash data s.store.options.chunkSize = .ok slices)
    (hcontents : ∀ slice ∈ slices, C slice.bytes)
    (hstocked : Stocked env.hash view C (liveReferences s.store) s.world s.store.dedup)
    (hentries : EntriesOf env.hash C s.idsDrawn s.store.dedup) (hnumbered : Numbered s)
    (hroom : 1000 + s.idsDrawn + slices.length + 2 ≤ 2 ^ 64) (hlength : data.length < 2 ^ 64)
    (hs : healthy s.world) :
    Post (publish env descriptor data) s
      (fun _ s' => Published env descriptor data s s' ∧ healthy s'.world)
      (fun _ _ => ¬DistinctChunks slices) := by
  have hok : ∀ slice ∈ slices, SliceOk env.hash slice ∧ C slice.bytes :=
    fun slice hin => ⟨chunk_stream_slice_ok hslices hin, hcontents slice hin⟩
  suffices hhealthy : Post (publish env descriptor data) s (fun _ s' => healthy s'.world)
      (fun _ _ => ¬DistinctChunks slices) from
    ((post_publish env descriptor data s).and hhealthy).mono (fun _ _ h => h) (fun _ _ h => h.2)
  simp only [publish, post_bind, post_get, post_from_except, post_next_id, post_with_locals,
    post_try_catch]
  refine (post_check_admission s descriptor).mono (fun underlay s₁ hs₁ => ?_)
    (fun _ _ hs₁ => (hs₁.1 b hadmitted).elim)
  obtain ⟨rfl, hadmitted'⟩ := hs₁
  obtain rfl : underlay = b := Option.some.inj (hadmitted'.backend.symm.trans hadmitted.backend)
  rw [hslices]
  refine ⟨fun slices' h => ?_, fun e h => by cases h⟩
  cases h
  simp only [publishBody, post_bind, post_get, post_on_system]
  have hloop := post_publish_loop_healthy hb hwrites hinjective hok (p := .start s₁)
    (hentries.mono (Nat.le_succ _)) (by show s₁.idsDrawn + 1 + slices.length < 2 ^ 64; omega) hs
  refine hloop.mono (fun _ p hp => ?_) (fun _ _ h => h.elim)
  obtain ⟨hrounds, hp⟩ := hp
  have hstored := ((Stocking.start hstocked).rounds hb hok hrounds).stored hinjective hok
    (by rw [hrounds.chunk_descriptors]; rfl)
  refine (post_finish_publish_healthy hserves descriptor hstored (chunk_stream_flatten hslices)
    hp).mono (fun _ _ h => h) (fun _ s' htile => ?_)
  refine (post_rollback _ _).mono (fun _ _ _ hdistinct => htile ?_) (fun _ _ h => h.elim)
  have hdrawn : p.system.idsDrawn = s₁.idsDrawn + 1 + slices.length := hrounds.ids_drawn
  obtain ⟨hrecording, _⟩ := hrounds.recording hnumbered (by omega)
  obtain ⟨hsizes, _, hpresent⟩ := hrounds.chunk_sizes (fun _ h => h) hdistinct
    fun slice _ size h => by cases h
  have hfound : ∀ slice ∈ slices, p.locals.chunkSizes.find (chunkIdFromDigest slice.digest) =
      some (byteSize slice.bytes) := by
    intro slice hin
    obtain ⟨size, hsize⟩ := Option.ne_none_iff_exists'.mp (hpresent slice hin)
    rw [hsize, hsizes slice hin size hsize]
  have htile := tile_manifest_contiguous (chunk_stream_offsets hslices) hfound
  rw [sorted_entries_of_slices hrecording.entries hslices hlength, hrecording.entries]
  rw [chunk_stream_flatten hslices, Nat.zero_add] at htile
  exact htile

end Publish

/-! ## Runs -/

/-- A publication draws an identity for its replica, one for every chunk and one for the manifest,
does not read the clock, and leaves a committed checkpoint. -/
theorem Published.committed {env : Env} {descriptor : CheckpointDescriptor} {data : Bytes}
    {slices : List ChunkSlice} {s s' : System W} (h : Published env descriptor data s s')
    (hslices : chunkStream env.hash data s.store.options.chunkSize = .ok slices) :
    s'.idsDrawn = s.idsDrawn + slices.length + 2 ∧ s'.ticks = s.ticks ∧
      (s'.store.checkpoints.find descriptor.id).map CheckpointRecord.lifecycle =
        some .committed := by
  cases h with
  | @intro underlay slices' p w hadmitted hslices' hrounds _ _ =>
      obtain rfl : slices' = slices := Except.ok.inj (hslices'.symm.trans hslices)
      have hdrawn : p.system.idsDrawn = s.idsDrawn + 1 + slices'.length := hrounds.ids_drawn
      refine ⟨?_, hrounds.ticks_eq, ?_⟩
      · show p.system.idsDrawn + 1 = _
        omega
      · rw [hrounds.find_published hadmitted.fresh env data descriptor.id, if_pos rfl]
        rfl

/-- After a run without a restart the entries are those of the contents of the run. -/
theorem entries_of_run {env : Env} {b : IBackend W} {view : ObjectView W} {C : Bytes → Prop}
    (hb : b.Lawful env.hash view) {options : StoreOptions}
    {backends : UnorderedMap StorageBackendId (IBackend W)} {w : W}
    (hbackends : ∀ id b', backends.find id = some b' → b' = b) {events : List (Event W)}
    {s : System W} (hrun : Run (Step env view.Same) (.fresh options backends w) events s)
    (hevents : ∀ e ∈ events, e.reopens = false)
    (hcontents : ∀ e ∈ events, ∀ x ∈ e.contents env.hash options.chunkSize, C x) :
    Supplied env b view C options.chunkSize s ∧ Numbered s ∧
      EntriesOf env.hash C s.idsDrawn s.store.dedup := by
  refine supplied_invariant hb hbackends (A := fun e => e ∈ events ∧ e.reopens = false)
    (fun e he => ⟨he.2, hcontents e he.1⟩)
    (fun _ s => Numbered s ∧ EntriesOf env.hash C s.idsDrawn s.store.dedup) ?_ ?_ hrun
    fun e he => ⟨he, hevents e he⟩
  · exact ⟨.fresh, fun d e hfind => by cases hfind⟩
  · rintro past s₁ e s₂ hs ⟨hn, he⟩ ⟨hmem, hreopens⟩ htransition
    exact ⟨htransition.numbered hreopens hn,
      htransition.entries_of hreopens (by rw [hs.chunkSize_eq]; exact hcontents e hmem) he⟩

/-- After a publication that returned, a restore gives back its data exactly when the chunks with
one identity have one content and memory has room. -/
theorem Published.restores_iff {env : Env} {b : IBackend W} {view : ObjectView W}
    {healthy : W → Prop} {C : Bytes → Prop} {descriptor : CheckpointDescriptor} {data : Bytes}
    {slices : List ChunkSlice} {chunkSize : UInt64} {s s₁ : System W}
    (h : Published env descriptor data s s₁) (hserves : b.Serves view healthy)
    (hsupplied : Supplied env b view C chunkSize s₁) (hseparates : SeparatesBy env.hash C)
    (hnumbered : Numbered s)
    (hslices : chunkStream env.hash data s.store.options.chunkSize = .ok slices)
    (hcontents : ∀ slice ∈ slices, C slice.bytes) (hlength : data.length < 2 ^ 64)
    (hroom : 1000 + s.idsDrawn + slices.length + 2 ≤ 2 ^ 64) (hhealthy : healthy s₁.world)
    (restoreId : RestoreId) :
    (∃ restored s₂, restore env restoreId descriptor.id s₁ = .ok restored s₂ ∧
      restored.bytes = data) ↔ DistinctChunks slices ∧ data.length ≤ env.memory s.ticks ∧
        descriptor.logicalSize.toNat ≤ env.memory s.ticks := by
  obtain ⟨hdrawn, hticks, hcommitted⟩ := h.committed hslices
  obtain ⟨rec, hfind, hdescriptor, hdescribes⟩ := h.describes hnumbered (by omega) hlength
  obtain ⟨slices', hslices', hplaced, hchunks⟩ := hdescribes.chunks
  obtain rfl : slices = slices' := Except.ok.inj (hslices.symm.trans hslices')
  have hlive : rec.lifecycle ≠ .deleted := by
    intro hdeleted
    simp [hfind, hdeleted] at hcommitted
  have hok : ∀ slice ∈ slices, SliceOk env.hash slice ∧ C slice.bytes := fun slice hslice =>
    ⟨chunk_stream_slice_ok hslices hslice, hcontents slice hslice⟩
  have hready := Describes.ready hsupplied hseparates hfind hlive hok hplaced hchunks
  have hpost := post_restore hserves restoreId hfind hlive hdescribes.lifecycle hready hhealthy
  rw [hdescriptor, hticks] at hpost
  have hdata := chunk_stream_flatten hslices
  refine ⟨fun hreturns => ?_, fun hwhen => ?_⟩
  · obtain ⟨restored, s₂, hok₂, hbytes⟩ := hreturns
    obtain ⟨hparts, hlogical, hfits, _⟩ := hpost.of_ok hok₂
    rw [← hparts, hbytes] at hfits
    refine ⟨distinct_of_resolved (resolved_parts_of_flatten s.store.options.chunkSize.toNat
      (fun i slice hget => ?_) ?_), hfits, hlogical⟩
    · exact (chunk_stream_placed hslices hlength hget).whole
    · rw [← hparts, hbytes, hdata]
  · obtain ⟨hdistinct, hfits, hlogical⟩ := hwhen
    rw [← hdescriptor, ← hticks] at hlogical
    exact restore_returns hserves restoreId hfind hlive hdescribes.lifecycle hlogical
      (hticks ▸ hfits) hready (by rw [hdistinct.resolved_parts, hdata]) hdescribes.digest hhealthy

/-- When what is published can be restored at once. In any state that a fresh store reaches over one
lawful backend that nobody else alters, without a restart, over a hash that separates the contents
of the run, and unless the identity counter wraps around: a publication that is admitted commits and
the restore that follows returns its data exactly when the chunks of the data with one identity have
one content and memory has room for the data and for the size that the descriptor declares. -/
theorem publish_then_restore {env : Env} {b : IBackend W} {view : ObjectView W}
    {healthy : W → Prop} (hb : b.Lawful env.hash view) (hserves : b.Serves view healthy)
    (hwrites : b.Writes view healthy) {options : StoreOptions}
    {backends : UnorderedMap StorageBackendId (IBackend W)} {w : W}
    (hbackends : ∀ id b', backends.find id = some b' → b' = b) {events : List (Event W)}
    {s : System W} (hrun : Run (Step env view.Same) (.fresh options backends w) events s)
    (hevents : ∀ e ∈ events, e.reopens = false) {descriptor : CheckpointDescriptor}
    {data : Bytes} {slices : List ChunkSlice} (hadmitted : Admitted s descriptor b)
    (hslices : chunkStream env.hash data options.chunkSize = .ok slices)
    (hseparates : SeparatesBy env.hash (· ∈ contentsOf env.hash options.chunkSize
      (events ++ [.call (.publish descriptor data) none])))
    (hlength : data.length < 2 ^ 64) (hroom : 1000 + s.idsDrawn + slices.length + 2 ≤ 2 ^ 64)
    (hhealthy : healthy s.world) (restoreId : RestoreId) :
    (∃ published s₁, publish env descriptor data s = .ok published s₁ ∧
      ∃ restored s₂, restore env restoreId descriptor.id s₁ = .ok restored s₂ ∧
        restored.bytes = data) ↔
    DistinctChunks slices ∧ data.length ≤ env.memory s.ticks ∧
      descriptor.logicalSize.toNat ≤ env.memory s.ticks := by
  set C : Bytes → Prop := (· ∈ contentsOf env.hash options.chunkSize
    (events ++ [.call (.publish descriptor data) none]))
  have hin : ∀ e ∈ events ++ [.call (.publish descriptor data) none],
      ∀ x ∈ e.contents env.hash options.chunkSize, C x :=
    fun e he x hx => List.mem_flatMap.mpr ⟨e, he, hx⟩
  have hlast : .call (.publish descriptor data) none ∈
      events ++ [.call (.publish descriptor data) none] :=
    List.mem_append_right _ (List.mem_singleton_self _)
  obtain ⟨hsupplied, hnumbered, hentries⟩ := entries_of_run hb hbackends hrun hevents
    fun e he => hin e (List.mem_append_left _ he)
  have hcontents : ∀ slice ∈ slices, C slice.bytes := fun slice hslice =>
    hin _ hlast _ (mem_contents_publish hslices hslice)
  rw [← hsupplied.chunkSize_eq] at hslices
  have hpublish := post_publish_healthy hb hserves hwrites hseparates hadmitted hslices hcontents
    hsupplied.stocked hentries hnumbered hroom hlength hhealthy
  have hrestore := fun published s₁ (hok : publish env descriptor data s = .ok published s₁) =>
    have hpost := hpublish.of_ok hok
    have htransition : Transition env view.Same s (.call (.publish descriptor data) none) s₁ :=
      .published hpost.1
    hpost.1.restores_iff hserves (htransition.supplied hb rfl (hin _ hlast) hsupplied) hseparates
      hnumbered hslices hcontents hlength hroom hpost.2 restoreId
  refine ⟨fun h => ?_, fun h => ?_⟩
  · obtain ⟨published, s₁, hok, hreturned⟩ := h
    exact (hrestore published s₁ hok).mp hreturned
  · obtain ⟨published, s₁, hok, _⟩ :=
      (hpublish.mono (fun _ _ h => h) fun _ _ hnot => hnot h.1).returns
    exact ⟨published, s₁, hok, (hrestore published s₁ hok).mpr h⟩

/-- The second checkpoint shares a chunk with the first. -/
theorem publish_then_restore_shared :
    ∃ published s₁, publish (sampleEnv tagHash) (sampleDescriptor 8 2 3) [1, 2, 1]
        (sampleRun tagHash [] [.createFamily, .publish (sampleDescriptor 7 1 2) [0, 1]]) =
          .ok published s₁ ∧
      ∃ restored s₂, restore (sampleEnv tagHash) ⟨1⟩ ⟨8⟩ s₁ = .ok restored s₂ ∧
        restored.bytes = [1, 2, 1] := by
  have hrun := run_calls (sampleEnv tagHash) MemoryWorld.view.Same (sampleSystem tagHash [])
    [.createFamily, .publish (sampleDescriptor 7 1 2) [0, 1]]
  have hadmitted : Admitted (sampleRun tagHash []
      [.createFamily, .publish (sampleDescriptor 7 1 2) [0, 1]]) (sampleDescriptor 8 2 3)
      (memoryBackend tagHash) :=
    ⟨by decide +kernel, by decide +kernel, by decide +kernel, by decide +kernel,
      by decide +kernel, rfl⟩
  have hcontents : contentsOf tagHash 1 (callEvents (sampleEnv tagHash) (sampleSystem tagHash [])
      [.createFamily, .publish (sampleDescriptor 7 1 2) [0, 1]] ++
        [.call (.publish (sampleDescriptor 8 2 3) [1, 2, 1]) none]) =
      [[0], [1], [1], [2], [1]] := by
    decide +kernel
  have hseparates : ∀ x ∈ [[0], [1], [1], [2], [1]], ∀ y ∈ [[0], [1], [1], [2], [1]],
      tagHash.sha256 x = tagHash.sha256 y → x = y := by
    decide
  refine (publish_then_restore (memory_backend_lawful tagHash) (memory_backend_serves tagHash)
    (memory_backend_writes tagHash) (fun _ _ => sample_backends tagHash) hrun (by decide +kernel)
    hadmitted rfl (fun x y hx hy => hseparates x (hcontents ▸ hx) y (hcontents ▸ hy))
    (by decide) (by decide +kernel) (by decide +kernel) ⟨1⟩).mpr ⟨?_, by decide, by decide⟩
  unfold DistinctChunks
  decide +kernel

/-- The strings that a publication hashes: the chunks, the data as a whole and the manifest. -/
def hashedStrings (H : StreamHash) (chunkSize : UInt64) (data : Bytes) (rec : CheckpointRecord) :
    List Bytes :=
  match chunkStream H data chunkSize with
  | .ok slices => slices.map ChunkSlice.bytes ++ [data, semanticBytes rec.manifest]
  | .error _ => []

/-- Two contents whose digests differ, and even start with different words, can share a chunk
identity, because the word 0 is read as 1. Over a hash that separates all strings that the run
hashes, the publication commits and the restore that follows fails. -/
theorem published_but_not_restorable :
    ∃ s s₁, s = sampleRun sentinelHash [] [.createFamily] ∧
      Admitted s (sampleDescriptor 7 1 2) (memoryBackend sentinelHash) ∧ s.world.faults = [] ∧
      finalState (publish (sampleEnv sentinelHash) (sampleDescriptor 7 1 2) [0, 1] s) = s₁ ∧
      thrown (publish (sampleEnv sentinelHash) (sampleDescriptor 7 1 2) [0, 1] s) = none ∧
      s₁.world.faults = [] ∧
      (∃ rec, s₁.store.checkpoints.find ⟨7⟩ = some rec ∧
        ∀ x ∈ hashedStrings sentinelHash 1 [0, 1] rec,
          ∀ y ∈ hashedStrings sentinelHash 1 [0, 1] rec,
            sentinelHash.sha256 x = sentinelHash.sha256 y → x = y) ∧
      thrown (restore (sampleEnv sentinelHash) ⟨1⟩ ⟨7⟩ s₁) =
        some (.error .digestMismatch "restored checkpoint digest mismatch") := by
  refine ⟨_, _, rfl, ⟨by decide +kernel, by decide +kernel, by decide +kernel, by decide +kernel,
    by decide +kernel, rfl⟩, by decide +kernel, rfl, by decide +kernel, by decide +kernel, ?_,
    by decide +kernel⟩
  have hseparated : ((finalState (publish (sampleEnv sentinelHash) (sampleDescriptor 7 1 2)
      [0, 1] (sampleRun sentinelHash [] [.createFamily]))).store.checkpoints.find ⟨7⟩).map
      (fun rec => decide (∀ x ∈ hashedStrings sentinelHash 1 [0, 1] rec,
        ∀ y ∈ hashedStrings sentinelHash 1 [0, 1] rec,
          sentinelHash.sha256 x = sentinelHash.sha256 y → x = y)) = some true := by
    decide +kernel
  obtain ⟨rec, hfind, hrec⟩ := Option.map_eq_some_iff.mp hseparated
  exact ⟨rec, hfind, of_decide_eq_true hrec⟩

end CheckpointStore
