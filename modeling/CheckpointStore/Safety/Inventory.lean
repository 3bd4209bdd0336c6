import CheckpointStore.Safety.Collection

/-!
# Entries, blobs and objects go together

Over one lawful backend whose `remove` works, and as long as no publication fails, a digest has an
entry in the dedup table exactly when it has a blob in the blob table, and exactly when it has an
object in the backend (`Linked`). A `Tidy` store has this, exact reference counts, and blobs whose
replicas lead to a backend. Every step keeps a store tidy (`Transition.tidy`), provided that
different contents have different blob identities.
-/

namespace CheckpointStore

open Foundation Foundation.Procedure Foundation.UnorderedMap

variable {W : Type}

/-- The digest of one of the contents. -/
def DigestOf (H : StreamHash) (C : Bytes → Prop) (d : Digest) : Prop := ∃ x, C x ∧ H.sha256 x = d

/-- Different contents have different blob identities. -/
def BlobsApart (H : StreamHash) (C : Bytes → Prop) : Prop :=
  ∀ x y, C x → C y → blobIdFromDigest (H.sha256 x) = blobIdFromDigest (H.sha256 y) → x = y

/-- A digest has an entry exactly when it has a blob, and exactly when it has an object. Objects
are good, and every blob has a usable replica. -/
structure Linked (H : StreamHash) (view : ObjectView W) (C : Bytes → Prop)
    (usable : ReplicaId → Prop) (s : System W) : Prop where
  blob_iff : ∀ d, (∃ bd, s.store.blobs.find (blobIdFromDigest d) = some bd ∧ bd.digest = d) ↔
    s.store.dedup.find d ≠ none
  object_iff : ∀ d, view.objects s.world (blobKey d) ≠ none ↔ s.store.dedup.find d ≠ none
  good : ∀ d x, view.objects s.world (blobKey d) = some x → C x ∧ H.sha256 x = d
  replicas : ∀ bid bd, s.store.blobs.find bid = some bd → ∃ rid ∈ bd.replicas, usable rid

section Linked

variable {H : StreamHash} {b : IBackend W} {view : ObjectView W} {C : Bytes → Prop}
  {usable : ReplicaId → Prop} {d d' : Digest} {s s' : System W}

theorem DigestOf.eq_of_blob_id (hapart : BlobsApart H C) (h : DigestOf H C d)
    (h' : DigestOf H C d') (hid : blobIdFromDigest d = blobIdFromDigest d') : d = d' := by
  obtain ⟨x, hx, rfl⟩ := h
  obtain ⟨y, hy, rfl⟩ := h'
  rw [hapart x y hx hy hid]

theorem Linked.object (h : Linked H view C usable s) (hd : s.store.dedup.find d ≠ none) :
    ∃ x, view.objects s.world (blobKey d) = some x ∧ C x ∧ H.sha256 x = d := by
  obtain ⟨x, hx⟩ := Option.ne_none_iff_exists'.mp ((h.object_iff d).mpr hd)
  exact ⟨x, hx, h.good d x hx⟩

theorem Linked.digest_of (h : Linked H view C usable s) (hd : s.store.dedup.find d ≠ none) :
    DigestOf H C d := by
  obtain ⟨x, _, hcontent⟩ := h.object hd
  exact ⟨x, hcontent⟩

/-- A blob has an entry for its digest. -/
theorem Linked.entry_of_blob (h : Linked H view C usable s) {bid : BlobId} {bd : BlobDescriptor}
    (hkeyed : bid = blobIdFromDigest bd.digest) (hfind : s.store.blobs.find bid = some bd) :
    s.store.dedup.find bd.digest ≠ none :=
  (h.blob_iff bd.digest).mp ⟨bd, hkeyed ▸ hfind, rfl⟩

/-! ## Publishing -/

/-- One more digest is stored and counted. -/
structure Adds (H : StreamHash) (view : ObjectView W) (C : Bytes → Prop) (d₁ : Digest)
    (s s' : System W) : Prop where
  entry : ∀ d, s'.store.dedup.find d ≠ none ↔ d = d₁ ∨ s.store.dedup.find d ≠ none
  object : ∀ d, d ≠ d₁ →
    view.objects s'.world (blobKey d) = view.objects s.world (blobKey d)
  good : ∃ x, view.objects s'.world (blobKey d₁) = some x ∧ C x ∧ H.sha256 x = d₁
  count : ∀ d, (s'.store.dedup.refcount d).toNat =
    (s.store.dedup.refcount d).toNat + if d = d₁ then 1 else 0

/-- In a linked store an entry's object is good, so a chunk is written only if it has no entry. -/
theorem Acquired.adds (hb : b.Lawful H view) {slice : ChunkSlice} {p q : Publishing W}
    {blobId : BlobId} (h : Acquired b slice p blobId q) (hp : Linked H view C usable p.system)
    (hok : SliceOk H slice) (hcontent : C slice.bytes) :
    Adds H view C slice.digest p.system q.system := by
  cases h with
  | @reused e w t hfind hverify hadd =>
      have hsame := ((hb.verify _ _ _).of_ok hverify).1
      have hentries := (DedupTable.add_reference_cases hfind hadd).2
      have hpresent : p.system.store.dedup.find slice.digest ≠ none := by simp [hfind]
      refine ⟨fun d => ?_, fun d _ => congrFun hsame _, ?_, refcount_add_reference hfind hadd⟩
      · show t.find d ≠ none ↔ _
        rw [hentries]
        by_cases hd : d = slice.digest
        · simp [hd]
        · simp [hd]
      · obtain ⟨x, hobject, hgood⟩ := hp.object hpresent
        exact ⟨x, (congrFun hsame _).trans hobject, hgood⟩
  | @written s w₁ w₂ t added hmissed hput hcommit hinsert =>
      have habsent : p.system.store.dedup.find slice.digest = none := by
        by_contra hpresent
        obtain ⟨e, hfind⟩ := Option.ne_none_iff_exists'.mp hpresent
        obtain ⟨x, hobject, _, hhash⟩ := hp.object hpresent
        exact hmissed.no_object hb e hfind ⟨x, hobject, hhash⟩
      have hobjects := objects_of_put_commit hb hput hcommit
      rw [hmissed.same hb] at hobjects
      refine ⟨fun d => ?_, fun d hd => objects_update_ne hobjects hd,
        ⟨slice.bytes, objects_update_self hobjects, hcontent, hok.digest_eq.symm⟩,
        refcount_insert_absent habsent hinsert⟩
      rcases DedupTable.insert_cases hinsert with ⟨_, hentries⟩ | ⟨e, hfind, _⟩
      · show t.find d ≠ none ↔ _
        rw [hentries]
        by_cases hd : d = slice.digest
        · simp [hd]
        · simp [hd]
      · rw [habsent] at hfind
        cases hfind

/-- The blob that is recorded has the replica; its digest is the old one, if there was a blob. -/
theorem find_record_blob_self (dedup : DedupTable) (slice : ChunkSlice) (bid : BlobId)
    (replica : ReplicaId) (blobs : UnorderedMap BlobId BlobDescriptor) :
    ∃ bd, (recordBlob dedup slice bid replica blobs).find bid = some bd ∧
      replica ∈ bd.replicas ∧
      bd.digest = ((blobs.find bid).map BlobDescriptor.digest).getD slice.digest := by
  unfold recordBlob
  cases hfind : blobs.find bid with
  | none => exact ⟨_, by rw [find_emplace, if_pos rfl, hfind], by simp, rfl⟩
  | some bd =>
      dsimp only
      by_cases hin : replica ∈ bd.replicas
      · rw [if_pos hin]
        exact ⟨bd, hfind, hin, rfl⟩
      · rw [if_neg hin, find_modify, if_pos rfl, hfind]
        exact ⟨_, rfl, by simp, rfl⟩

theorem find_record_blob_ne (dedup : DedupTable) (slice : ChunkSlice) {bid bid' : BlobId}
    (replica : ReplicaId) (blobs : UnorderedMap BlobId BlobDescriptor) (hne : bid' ≠ bid) :
    (recordBlob dedup slice bid replica blobs).find bid' = blobs.find bid' := by
  unfold recordBlob
  split
  · rw [find_emplace, if_neg hne]
  · split
    · rfl
    · rw [find_modify, if_neg hne]

/-- Only blobs of its digest have the identity of a slice, also once it has been recorded. -/
theorem Linked.find_recorded (hapart : BlobsApart H C) (h : Linked H view C usable s)
    (hblobs : ∀ bid bd, s.store.blobs.find bid = some bd → bid = blobIdFromDigest bd.digest)
    {slice : ChunkSlice} (hslice : DigestOf H C slice.digest) (dedup : DedupTable)
    (replica : ReplicaId) :
    ∃ bd, (recordBlob dedup slice (blobIdFromDigest slice.digest) replica s.store.blobs).find
        (blobIdFromDigest slice.digest) = some bd ∧
      replica ∈ bd.replicas ∧ bd.digest = slice.digest := by
  obtain ⟨bd₁, hself, hin, hdigest⟩ := find_record_blob_self dedup slice
    (blobIdFromDigest slice.digest) replica s.store.blobs
  refine ⟨bd₁, hself, hin, ?_⟩
  rw [hdigest]
  cases hfind : s.store.blobs.find (blobIdFromDigest slice.digest) with
  | none => rfl
  | some bd =>
      have hid := hblobs _ bd hfind
      exact (h.digest_of (h.entry_of_blob hid hfind)).eq_of_blob_id hapart hslice hid.symm

/-- The digests that have a blob once a slice has been recorded. -/
theorem Linked.recorded_iff (hapart : BlobsApart H C) (h : Linked H view C usable s)
    (hblobs : ∀ bid bd, s.store.blobs.find bid = some bd → bid = blobIdFromDigest bd.digest)
    {slice : ChunkSlice} (hslice : DigestOf H C slice.digest) (dedup : DedupTable)
    (replica : ReplicaId) (d : Digest) :
    (∃ bd, (recordBlob dedup slice (blobIdFromDigest slice.digest) replica s.store.blobs).find
        (blobIdFromDigest d) = some bd ∧ bd.digest = d) ↔
      d = slice.digest ∨ s.store.dedup.find d ≠ none := by
  obtain ⟨bd₁, hself, _, hdigest₁⟩ := h.find_recorded hapart hblobs hslice dedup replica
  by_cases hd : d = slice.digest
  · subst hd
    exact ⟨fun _ => Or.inl rfl, fun _ => ⟨bd₁, hself, hdigest₁⟩⟩
  · rw [or_iff_right hd, ← h.blob_iff]
    by_cases hid : blobIdFromDigest d = blobIdFromDigest slice.digest
    · -- Neither side: the blob with this identity has the digest of the slice.
      refine ⟨fun ⟨bd, hfind, hbd⟩ => ?_, fun hblob => ?_⟩
      · rw [hid, hself] at hfind
        cases hfind
        exact absurd (hbd.symm.trans hdigest₁) hd
      · exact absurd ((h.digest_of ((h.blob_iff d).mp hblob)).eq_of_blob_id hapart hslice hid) hd
    · rw [find_record_blob_ne _ _ _ _ hid]

/-- One round of a publication keeps a store linked. -/
theorem Linked.round (hb : b.Lawful H view) (hapart : BlobsApart H C) {slice : ChunkSlice}
    {p q : Publishing W} {blobId : BlobId} (h : Linked H view C usable p.system)
    (hkeyed : KeyedSoFar p) (hreplica : usable p.locals.replicaId) (hok : SliceOk H slice)
    (hcontent : C slice.bytes) (hacquired : Acquired b slice p blobId q) :
    Linked H view C usable (recordChunk slice blobId q).system := by
  have hadds := hacquired.adds hb h hok hcontent
  obtain ⟨_, rfl⟩ := hacquired.keyed hkeyed.entries
  obtain ⟨_, _, hstore⟩ := hacquired.store_eq
  have hblobs : (recordChunk slice (blobIdFromDigest slice.digest) q).system.store.blobs =
      recordBlob q.system.store.dedup slice (blobIdFromDigest slice.digest) q.locals.replicaId
        p.system.store.blobs := by
    show recordBlob _ _ _ _ q.system.store.blobs = _
    rw [hstore]
  have hslice : DigestOf H C slice.digest := ⟨slice.bytes, hcontent, hok.digest_eq.symm⟩
  constructor
  · intro d
    rw [hblobs, h.recorded_iff hapart hkeyed.blobs hslice]
    exact (hadds.entry d).symm
  · intro d
    show view.objects q.system.world (blobKey d) ≠ none ↔ q.system.store.dedup.find d ≠ none
    rw [hadds.entry]
    by_cases hd : d = slice.digest
    · obtain ⟨x, hx, _⟩ := hadds.good
      simp [hd, hx]
    · rw [hadds.object d hd, or_iff_right hd]
      exact h.object_iff d
  · intro d x hx
    have hx' : view.objects q.system.world (blobKey d) = some x := hx
    by_cases hd : d = slice.digest
    · obtain ⟨y, hy, hgood⟩ := hadds.good
      rw [hd, hy] at hx'
      cases hx'
      rw [hd]
      exact hgood
    · rw [hadds.object d hd] at hx'
      exact h.good d x hx'
  · intro bid bd hfind
    rw [hblobs] at hfind
    by_cases hbid : bid = blobIdFromDigest slice.digest
    · obtain ⟨bd₁, hself, hin, _⟩ := h.find_recorded hapart hkeyed.blobs hslice
        q.system.store.dedup q.locals.replicaId
      rw [hbid, hself] at hfind
      cases hfind
      exact ⟨_, hin, hacquired.locals_eq.2.2 ▸ hreplica⟩
    · rw [find_record_blob_ne _ _ _ _ hbid] at hfind
      exact h.replicas bid bd hfind

/-- The rounds of a publication keep a store linked and count every chunk that they record. -/
theorem Rounds.linked (hb : b.Lawful H view) (hapart : BlobsApart H C) {slices : List ChunkSlice}
    {p p' : Publishing W} (h : Rounds b slices p p')
    (hok : ∀ slice ∈ slices, SliceOk H slice ∧ C slice.bytes) (hkeyed : KeyedSoFar p)
    (hreplica : usable p.locals.replicaId) (hp : Linked H view C usable p.system) :
    Linked H view C usable p'.system ∧
      (∀ d, (p'.system.store.dedup.refcount d).toNat + countDigest d p.locals.chunkDescriptors =
        (p.system.store.dedup.refcount d).toNat + countDigest d p'.locals.chunkDescriptors) ∧
      ∀ cd ∈ p'.locals.chunkDescriptors,
        cd ∈ p.locals.chunkDescriptors ∨ DigestOf H C cd.digest := by
  induction h with
  | nil p => exact ⟨hp, fun _ => rfl, fun cd hcd => Or.inl hcd⟩
  | @cons slice rest p q p' blobId hacquired _ ih =>
      obtain ⟨hslice, hcontent⟩ := hok slice (by simp)
      obtain ⟨hlinked, hcounts, hchunks⟩ := ih
        (fun slice' hin => hok slice' (List.mem_cons_of_mem _ hin)) (hkeyed.round hacquired)
        (hacquired.locals_eq.2.2 ▸ hreplica)
        (hp.round hb hapart hkeyed hreplica hslice hcontent hacquired)
      refine ⟨hlinked, fun d => ?_, fun cd hcd => ?_⟩
      · have hlater := hcounts d
        have hround := (hacquired.adds hb hp hslice hcontent).count d
        have hrecorded := count_record_chunk hacquired d
        have hdedup : (recordChunk slice blobId q).system.store.dedup = q.system.store.dedup := rfl
        rw [hdedup] at hlater
        omega
      · rcases hchunks cd hcd with hin | hdigest
        · rcases List.mem_append.mp hin with hold | hnew
          · exact Or.inl (hacquired.locals_eq.1 ▸ hold)
          · obtain rfl := List.mem_singleton.mp hnew
            exact Or.inr ⟨slice.bytes, hcontent, hslice.digest_eq.symm⟩
        · exact Or.inr hdigest

/-- What is linked depends on the presence of entries, the objects, and the content of blobs. -/
theorem Linked.transfer {usable' : ReplicaId → Prop} (h : Linked H view C usable s)
    (hdedup : ∀ d, s'.store.dedup.find d ≠ none ↔ s.store.dedup.find d ≠ none)
    (hobjects : view.Same s.world s'.world)
    (hblobs : ∀ bid, (s'.store.blobs.find bid).map BlobDescriptor.content =
      (s.store.blobs.find bid).map BlobDescriptor.content)
    (husable : ∀ rid, usable rid → usable' rid) : Linked H view C usable' s' := by
  have hblob : ∀ {t t' : System W} {bid : BlobId} {bd : BlobDescriptor},
      (t'.store.blobs.find bid).map BlobDescriptor.content =
        (t.store.blobs.find bid).map BlobDescriptor.content →
      t'.store.blobs.find bid = some bd → ∃ bd₀, t.store.blobs.find bid = some bd₀ ∧
        bd₀.digest = bd.digest ∧ bd₀.replicas = bd.replicas := by
    intro t t' bid bd hsame hfind
    rw [hfind] at hsame
    obtain ⟨bd₀, hfind₀, hbd₀⟩ := Option.map_eq_some_iff.mp hsame.symm
    have hdigest : bd₀.content.digest = bd.content.digest := by rw [hbd₀]
    have hreplicas : bd₀.content.replicas = bd.content.replicas := by rw [hbd₀]
    exact ⟨bd₀, hfind₀, hdigest, hreplicas⟩
  refine ⟨fun d => ?_, fun d => ?_, fun d x hx => ?_, fun bid bd hfind => ?_⟩
  · rw [hdedup, ← h.blob_iff]
    constructor
    · rintro ⟨bd, hfind, rfl⟩
      obtain ⟨bd₀, hfind₀, hdigest, _⟩ := hblob (hblobs _) hfind
      exact ⟨bd₀, hfind₀, hdigest⟩
    · rintro ⟨bd, hfind, rfl⟩
      obtain ⟨bd₀, hfind₀, hdigest, _⟩ := hblob (hblobs _).symm hfind
      exact ⟨bd₀, hfind₀, hdigest⟩
  · rw [hobjects, hdedup]
    exact h.object_iff d
  · rw [hobjects] at hx
    exact h.good d x hx
  · obtain ⟨bd₀, hfind₀, _, hreplicas⟩ := hblob (hblobs _) hfind
    obtain ⟨rid, hin, hrid⟩ := h.replicas bid bd₀ hfind₀
    exact ⟨rid, hreplicas ▸ hin, husable rid hrid⟩

/-! ## Collecting -/

/-- When removing succeeds, an object is removed by the calls for its replicas if one of them
leads to a backend. -/
theorem RemoveCalls.removes (hremoves : b.Removes view) {store : Store W} {key : BackendKey}
    {rids : List ReplicaId} {before after : Bool} {w w' : W}
    (hbackends : ∀ id b', store.backends.find id = some b' → b' = b)
    (h : RemoveCalls store key rids before w after w') (hobject : view.objects w key ≠ none)
    (hregistered : ∃ rid ∈ rids, Registered store rid) : after = true := by
  induction h with
  | done => simp at hregistered
  | @skip rid rest before after w w' hunknown _ ih =>
      obtain ⟨rid', hin, hrid'⟩ := hregistered
      rcases List.mem_cons.mp hin with rfl | hrest
      · exact absurd hrid' hunknown
      · exact ih hobject ⟨rid', hrest, hrid'⟩
  | @call rid rest rd b' before removed after w w₁ w' _ hbackend hremove hrest _ =>
      obtain rfl := hbackends _ _ hbackend
      obtain ⟨w₂, hrun⟩ := hremoves key w hobject
      rw [hremove] at hrun
      cases hrun
      exact hrest.answered (Bool.or_true _)

/-- When removing succeeds, no collection is interrupted. -/
theorem not_reclaim_threw (hb : b.Lawful H view) (hremoves : b.Removes view)
    {reachable : List BlobId} {bid : BlobId}
    (hbackends : ∀ id b', s.store.backends.find id = some b' → b' = b) :
    ¬ ReclaimThrew reachable bid s s' := by
  intro h
  cases h with
  | @intro bd asked removedAny w₁ w calls id b' exn _ _ _ _ hbackend hthrow =>
      obtain rfl := hbackends _ _ hbackend
      obtain ⟨w₂, hrun⟩ := hremoves _ _ ((hb.remove _ _).of_error hthrow).2
      rw [hthrow] at hrun
      cases hrun

/-- Reclaiming a blob takes its entry, its object and itself. -/
theorem Reclaimed.linked (hb : b.Lawful H view) (hremoves : b.Removes view)
    {reachable : List BlobId} {bid : BlobId}
    (hbackends : ∀ id b', s.store.backends.find id = some b' → b' = b)
    (hblobs : ∀ bid bd, s.store.blobs.find bid = some bd → bid = blobIdFromDigest bd.digest)
    (husable : ∀ rid, usable rid → Registered s.store rid) (h : Reclaimed reachable bid s s')
    (hs : Linked H view C usable s) : Linked H view C usable s' := by
  cases h with
  | deferred => exact hs
  | @forgot bd removedAny w calls _ hfind hcount hcalls _ =>
      have hbid := hblobs bid bd hfind
      obtain ⟨rid, hin, hrid⟩ := hs.replicas bid bd hfind
      obtain rfl : removedAny = true := hcalls.removes hremoves hbackends
        ((hs.object_iff _).mpr (hs.entry_of_blob hbid hfind)) ⟨rid, hin, husable rid hrid⟩
      have hobjects := hcalls.objects hb hbackends (by simp)
      rw [if_pos rfl] at hobjects
      have hdedup : ∀ d, (forgetBlob bid bd true s.store).dedup.find d =
          if d = bd.digest then none else s.store.dedup.find d := by
        intro d
        show (s.store.dedup.releaseUntilOrphan bd.digest).2.find d = _
        rw [DedupTable.find_release_until_orphan]
        simp only [hcount, and_true]
      have hblob : ∀ bid', (forgetBlob bid bd true s.store).blobs.find bid' =
          if bid' = bid then none else s.store.blobs.find bid' := fun bid' => find_erase _ _ _
      refine ⟨fun d => ?_, fun d => ?_, fun d x hx => ?_, fun bid' bd' hfind' => ?_⟩
      · dsimp only
        rw [hdedup, hblob]
        by_cases hd : d = bd.digest
        · simp [hd, ← hbid]
        · rw [if_neg hd, ← hs.blob_iff]
          by_cases hid : blobIdFromDigest d = bid
          · -- The only blob with this identity has another digest.
            rw [if_pos hid, hid, hfind]
            simp [Ne.symm hd]
          · rw [if_neg hid]
      · dsimp only
        rw [hdedup]
        by_cases hd : d = bd.digest
        · simp [hd, objects_update_self hobjects]
        · rw [if_neg hd, objects_update_ne hobjects hd]
          exact hs.object_iff d
      · by_cases hd : d = bd.digest
        · rw [hd, objects_update_self hobjects] at hx
          cases hx
        · rw [objects_update_ne hobjects hd] at hx
          exact hs.good d x hx
      · dsimp only at hfind'
        rw [hblob] at hfind'
        split at hfind'
        · cases hfind'
        · exact hs.replicas bid' bd' hfind'

theorem Reclaims.linked (hb : b.Lawful H view) (hremoves : b.Removes view)
    {reachable bids : List BlobId}
    (hbackends : ∀ id b', s.store.backends.find id = some b' → b' = b)
    (hblobs : ∀ bid bd, s.store.blobs.find bid = some bd → bid = blobIdFromDigest bd.digest)
    (husable : ∀ rid, usable rid → Registered s.store rid) (h : Reclaims reachable bids s s')
    (hs : Linked H view C usable s) : Linked H view C usable s' := by
  induction h with
  | nil s => exact hs
  | @cons bid rest s s₁ s' hround _ ih =>
      have hframe : s₁.store.backends = s.store.backends ∧
          s₁.store.replicas = s.store.replicas := by
        cases hround with
        | deferred => exact ⟨rfl, rfl⟩
        | forgot => exact ⟨rfl, rfl⟩
      refine ih ?_ (fun bid bd hfind => hblobs bid bd (hround.find_blob hfind)) ?_
        (hround.linked hb hremoves hbackends hblobs husable hs)
      · rw [hframe.1]
        exact hbackends
      · unfold Registered
        rw [hframe.1, hframe.2]
        exact husable

end Linked

/-! ## Tidy stores -/

/-- The lifecycles that records of a running store have. -/
def CheckpointLifecycle.Settled (lifecycle : CheckpointLifecycle) : Prop :=
  lifecycle = .committed ∨ lifecycle = .retired ∨ lifecycle = .deleted

theorem settled_of_content {lifecycle lifecycle' : CheckpointLifecycle}
    (hsame : lifecycle'.content = lifecycle.content) (h : lifecycle.Settled) :
    lifecycle'.Settled := by
  unfold CheckpointLifecycle.Settled
  rcases h with rfl | rfl | rfl <;> revert hsame <;> cases lifecycle' <;>
    simp [CheckpointLifecycle.content]

/-- A store over the backend `b` that is linked, keyed and counted exactly. -/
structure Tidy (H : StreamHash) (b : IBackend W) (view : ObjectView W) (C : Bytes → Prop)
    (s : System W) : Prop where
  backends : ∀ id b', s.store.backends.find id = some b' → b' = b
  linked : Linked H view C (Registered s.store) s
  replicas : ∀ rid rd, s.store.replicas.find rid = some rd →
    s.store.backends.find rd.backendId ≠ none
  counts : ∀ d, (s.store.dedup.refcount d).toNat = liveReferences s.store d
  chunks : ∀ id rec, s.store.checkpoints.find id = some rec → ∀ cd ∈ rec.chunks,
    DigestOf H C cd.digest
  lifecycles : ∀ id rec, s.store.checkpoints.find id = some rec → rec.lifecycle.Settled
  keyed : Keyed s.store
  entries : EntriesKeyed s.store.dedup

section Tidy

variable {env : Env} {b : IBackend W} {view : ObjectView W} {C : Bytes → Prop} {s s' : System W}

theorem Tidy.quiet {H : StreamHash} (hs : Tidy H b view C s) (h : SameContent view.Same s s') :
    Tidy H b view C s' := by
  obtain ⟨hkeyed, hentries⟩ := keyed_quiet h hs.keyed hs.entries
  have hregistered : ∀ rid, Registered s.store rid → Registered s'.store rid := by
    rintro rid ⟨rd, hfind, hbackend⟩
    have hsame := h.replicas rid
    rw [hfind] at hsame
    obtain ⟨rd', hfind', hrd'⟩ := Option.map_eq_some_iff.mp hsame
    have hbackendId : rd'.content.backendId = rd.content.backendId := by rw [hrd']
    refine ⟨rd', hfind', ?_⟩
    rw [h.backends, show rd'.backendId = rd.backendId from hbackendId]
    exact hbackend
  constructor
  · exact fun id b' hfind => hs.backends id b' (h.backends id ▸ hfind)
  · exact hs.linked.transfer (fun d => by rw [h.dedup d]) h.world h.blobs hregistered
  · intro rid rd hfind
    have hsame := h.replicas rid
    rw [hfind] at hsame
    obtain ⟨rd₀, hfind₀, hrd₀⟩ := Option.map_eq_some_iff.mp hsame.symm
    have hbackendId : rd₀.content.backendId = rd.content.backendId := by rw [hrd₀]
    rw [h.backends, ← show rd₀.backendId = rd.backendId from hbackendId]
    exact hs.replicas rid rd₀ hfind₀
  · intro d
    rw [refcount_quiet h, live_references_quiet h]
    exact hs.counts d
  · intro id rec hfind cd hcd
    obtain ⟨rec₀, cd₀, hfind₀, hcd₀, hcontent⟩ := h.chunk_before hfind hcd
    have hdigest : cd₀.content.digest = cd.content.digest := by rw [hcontent]
    rw [← show cd₀.digest = cd.digest from hdigest]
    exact hs.chunks id rec₀ hfind₀ cd₀ hcd₀
  · intro id rec hfind
    have hcontent := h.checkpoints id
    rw [hfind] at hcontent
    obtain ⟨rec₀, hfind₀, hrec₀⟩ := Option.map_eq_some_iff.mp hcontent.symm
    exact settled_of_content (congrArg CheckpointRecord.lifecycle hrec₀).symm
      (hs.lifecycles id rec₀ hfind₀)
  · exact hkeyed
  · exact hentries

/-- A publication adds a replica on its own backend at most. -/
theorem Published.replicas_resolve {descriptor : CheckpointDescriptor} {data : Bytes}
    (h : Published env descriptor data s s')
    (hs : ∀ rid rd, s.store.replicas.find rid = some rd →
      s.store.backends.find rd.backendId ≠ none) {rid : ReplicaId} {rd : ReplicaDescriptor}
    (hrd : s'.store.replicas.find rid = some rd) :
    s'.store.backends.find rd.backendId ≠ none := by
  obtain ⟨_, hbackends, _⟩ := h.store_eq
  rw [hbackends]
  cases h with
  | @intro underlay slices p w hadmitted hslices hrounds =>
      have hrd := (hrounds.find_published_replica env descriptor data rid).symm.trans hrd
      split at hrd
      · cases hold : s.store.replicas.find p.locals.replicaId with
        | some rd₀ =>
            rw [hold] at hrd
            cases hrd
            exact hs _ _ hold
        | none =>
            rw [hold] at hrd
            cases hrd
            simp [newReplica, hadmitted.backend]
      · exact hs rid rd hrd

/-- A publication leaves the old replicas registered, and its own. -/
theorem Rounds.find_usable_replica {underlay : IBackend W} {slices : List ChunkSlice}
    {p : Publishing W} (h : Rounds underlay slices (.start s) p) (env : Env)
    (descriptor : CheckpointDescriptor) (data : Bytes) {rid : ReplicaId}
    (hrid : Registered s.store rid ∨ rid = ⟨s.store.nextIdCounter⟩) :
    ∃ rd, (publishedStore env descriptor data p).replicas.find rid = some rd := by
  rcases hrid with ⟨rd, hrd, _⟩ | hid
  · exact ⟨rd, h.find_old_replica env descriptor data hrd⟩
  · have hreplicaId : p.locals.replicaId = ⟨s.store.nextIdCounter⟩ := h.replica_id
    rw [h.find_published_replica, hreplicaId, if_pos hid]
    exact ⟨_, rfl⟩

/-- A publication keeps a store tidy. -/
theorem Published.tidy (hb : b.Lawful env.hash view) (hapart : BlobsApart env.hash C)
    {descriptor : CheckpointDescriptor} {data : Bytes}
    (hcontent : ∀ slices, chunkStream env.hash data s.store.options.chunkSize = .ok slices →
      ∀ slice ∈ slices, C slice.bytes)
    (h : Published env descriptor data s s') (hs : Tidy env.hash b view C s) :
    Tidy env.hash b view C s' := by
  obtain ⟨hkeyed, hentries⟩ := h.keyed hs.keyed hs.entries
  obtain ⟨_, hbackends, _⟩ := h.store_eq
  have hresolve : ∀ rid rd, s'.store.replicas.find rid = some rd →
      s'.store.backends.find rd.backendId ≠ none := fun _ _ => h.replicas_resolve hs.replicas
  cases h with
  | @intro underlay slices p w hadmitted hslices hrounds hreads _ =>
      obtain rfl := hs.backends _ _ hadmitted.backend
      -- During the loop the replica of the publication counts as registered.
      let usable : ReplicaId → Prop := fun rid =>
        Registered s.store rid ∨ rid = ⟨s.store.nextIdCounter⟩
      have hreplica : usable (Publishing.start s).locals.replicaId := Or.inr rfl
      have hstart : Linked env.hash view C usable (Publishing.start s).system :=
        hs.linked.transfer (fun _ => Iff.rfl) rfl (fun _ => rfl) fun _ => Or.inl
      obtain ⟨hlinked, hcounts, hchunks⟩ := hrounds.linked hb hapart
        (fun slice hin => ⟨chunk_stream_slice_ok hslices hin, hcontent _ hslices slice hin⟩)
        (keyed_start hs.keyed hs.entries) hreplica hstart
      have husable : ∀ rid, usable rid →
          Registered (publishedStore env descriptor data p) rid := by
        intro rid hrid
        obtain ⟨rd, hrd⟩ := hrounds.find_usable_replica env descriptor data hrid
        exact ⟨rd, hrd, hresolve rid rd hrd⟩
      refine ⟨?_, ?_, hresolve, fun d => ?_, fun id rec hrec cd hcd => ?_, fun id rec hrec => ?_,
        hkeyed, hentries⟩
      · rw [hbackends]
        exact hs.backends
      · exact hlinked.transfer (fun _ => Iff.rfl) (hreads.same hb) (fun _ => rfl) husable
      · have hcount := hcounts d
        have hbefore := hs.counts d
        have hstart : countDigest d (Publishing.start s).locals.chunkDescriptors = 0 := rfl
        have hdedup : (Publishing.start s).system.store.dedup = s.store.dedup := rfl
        show (p.system.store.dedup.refcount d).toNat = _
        rw [hrounds.live_references hadmitted.fresh]
        rw [hstart, hdedup] at hcount
        omega
      · rcases hrounds.published_cases hadmitted.fresh hrec with rfl | hrec
        · rcases hchunks cd hcd with hold | hdigest
          · simp [Publishing.start] at hold
          · exact hdigest
        · exact hs.chunks id rec hrec cd hcd
      · rcases hrounds.published_cases hadmitted.fresh hrec with rfl | hrec
        · exact Or.inl rfl
        · exact hs.lifecycles id rec hrec

/-- The entries of a store before and after a sweep. -/
theorem find_sweep_entry_iff (eligible : List CheckpointId) (store : Store W) (d : Digest) :
    (sweep eligible store).dedup.find d ≠ none ↔ store.dedup.find d ≠ none := by
  have hentries := congrArg Option.isSome (sweep_entries eligible store d)
  rw [Option.isSome_map, Option.isSome_map] at hentries
  rw [← Option.isSome_iff_ne_none, ← Option.isSome_iff_ne_none, hentries]

theorem Tidy.sweep {H : StreamHash} (hs : Tidy H b view C s) (eligible : List CheckpointId)
    (n : Nat) : Linked H view C (Registered s.store)
      { s with ticks := n, store := CheckpointStore.sweep eligible s.store } := by
  obtain ⟨_, _, _, hsweep⟩ := sweep_store_eq eligible s.store
  refine hs.linked.transfer (find_sweep_entry_iff eligible s.store) rfl (fun bid => ?_)
    fun _ hrid => hrid
  dsimp only
  rw [hsweep]

/-- A collection keeps a tidy store linked, and no call of it throws. -/
theorem GcRan.linked (hb : b.Lawful env.hash view) (hremoves : b.Removes view)
    (h : GcRan env s s') (hs : Tidy env.hash b view C s) :
    Linked env.hash view C (Registered s.store) s' := by
  cases h with
  | @completed eligible _ _ _ _ heligible hretained hreclaims =>
      obtain ⟨n, rfl⟩ := protected_sets_clock_only heligible hretained
      obtain ⟨_, _, _, hsweep⟩ := sweep_store_eq eligible s.store
      refine (hreclaims.linked hb hremoves ?_ ?_ ?_ (hs.sweep eligible n)).transfer
        (fun _ => Iff.rfl) rfl (fun _ => rfl) fun _ hrid => hrid
      · rw [hsweep]
        exact hs.backends
      · rw [hsweep]
        exact hs.keyed.blobs
      · rw [hsweep]
        exact fun _ hrid => hrid
  | @interrupted eligible _ _ _ _ _ _ _ _ _ _ _ hreclaims hthrew =>
      obtain ⟨_, _, _, hsweep⟩ := sweep_store_eq eligible s.store
      obtain ⟨_, _, _, hreclaimed⟩ := hreclaims.store_eq
      refine absurd hthrew (not_reclaim_threw hb hremoves ?_)
      rw [hreclaimed]
      show ∀ id b', (CheckpointStore.sweep eligible s.store).backends.find id = some b' → b' = b
      rw [hsweep]
      exact hs.backends

/-- A collection keeps a store tidy. -/
theorem GcRan.tidy (hb : b.Lawful env.hash view) (hremoves : b.Removes view)
    (h : GcRan env s s') (hs : Tidy env.hash b view C s) : Tidy env.hash b view C s' := by
  obtain ⟨hkeyed, hentries⟩ := h.keyed hs.keyed hs.entries
  obtain ⟨_, _, _, _, _, hstore⟩ := h.store_eq
  refine ⟨?_, ?_, ?_, fun d => ?_, fun id rec' hfind cd hcd => ?_, fun id rec' hfind => ?_, hkeyed,
    hentries⟩
  · rw [hstore]
    exact hs.backends
  · have hregistered : Registered s'.store = Registered s.store := by rw [hstore]; rfl
    rw [hregistered]
    exact h.linked hb hremoves hs
  · rw [hstore]
    exact hs.replicas
  · obtain ⟨eligible, hcount, hlive⟩ := h.references d
    obtain ⟨n, hswept, hreleased⟩ := sweep_references eligible s.store d
    have hbefore := hs.counts d
    rw [hcount, hlive]
    omega
  · obtain ⟨rec, hrec, rfl | rfl⟩ := h.record_cases hfind
    · exact hs.chunks id rec' hrec cd hcd
    · exact hs.chunks id rec hrec cd hcd
  · obtain ⟨rec, hrec, rfl | rfl⟩ := h.record_cases hfind
    · exact hs.lifecycles id rec' hrec
    · exact Or.inr (Or.inr rfl)

/-- Every step keeps a store tidy, unless a publication fails. -/
theorem Transition.tidy (hb : b.Lawful env.hash view) (hremoves : b.Removes view)
    (hapart : BlobsApart env.hash C) {e : Event W} (h : Transition env view.Same s e s')
    (hfails : e.publishFails = false) (hreopens : e.reopens = false)
    (hcontents : ∀ x ∈ e.contents env.hash s.store.options.chunkSize, C x)
    (hs : Tidy env.hash b view C s) : Tidy env.hash b view C s' := by
  cases h with
  | quiet _ h => exact hs.quiet h
  | published h =>
      exact h.tidy hb hapart (fun slices hslices slice hin =>
        hcontents _ (mem_contents_publish hslices hin)) hs
  | publishFailed => simp [Event.publishFails] at hfails
  | gcRan h => exact h.tidy hb hremoves hs
  | reopened => simp [Event.reopens] at hreopens

/-- A fresh store over a backend without blobs is tidy. -/
theorem tidy_fresh {H : StreamHash} {options : StoreOptions}
    {backends : UnorderedMap StorageBackendId (IBackend W)} {w : W}
    (hbackends : ∀ id b', backends.find id = some b' → b' = b)
    (hempty : ∀ d, view.objects w (blobKey d) = none) :
    Tidy H b view C (.fresh options backends w) where
  backends := hbackends
  linked := {
    blob_iff := fun d => by simp [System.fresh, Store.create]
    object_iff := fun d => by simp [System.fresh, Store.create, hempty d]
    good := fun d x hx => by simp [System.fresh, hempty d] at hx
    replicas := fun bid bd hfind => by simp [System.fresh, Store.create] at hfind }
  replicas := fun rid rd hfind => by simp [System.fresh, Store.create] at hfind
  counts := fun _ => rfl
  chunks := fun id rec hfind => by simp [System.fresh, Store.create] at hfind
  lifecycles := fun id rec hfind => by simp [System.fresh, Store.create] at hfind
  keyed := {
    chunks := fun id rec hfind => by simp [System.fresh, Store.create] at hfind
    blobs := fun bid bd hfind => by simp [System.fresh, Store.create] at hfind }
  entries := fun d e hfind => by simp [System.fresh, Store.create] at hfind

end Tidy

end CheckpointStore
