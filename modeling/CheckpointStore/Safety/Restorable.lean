import CheckpointStore.Safety.Identities
import CheckpointStore.Safety.Stock

/-!
# Published checkpoints stay restorable

`Describes` says that a record is the record of some data: its chunks are the chunks of the data
in order, its manifest names them, and their placements lead to a registered backend. A
publication enters such a record as long as the identity counter has not wrapped around, and
every later step keeps it. Together with the agreement of dedup table and objects this gives
`live_checkpoint_restores`: what was published and is not deleted can be restored.
-/

namespace CheckpointStore

open Foundation Foundation.Procedure

variable {W : Type}

/-- A placement leads through its replica to a registered backend. -/
def Resolves (store : Store W) (id : PlacementId) : Prop :=
  ∃ pd rd b, store.placements.find id = some pd ∧ store.replicas.find pd.replicaId = some rd ∧
    store.backends.find rd.backendId = some b

/-- The descriptor of a chunk, with a placement that can be followed. -/
structure ChunkPlaced (store : Store W) (slice : ChunkSlice) (cd : ChunkDescriptor) : Prop where
  id : cd.id = chunkIdFromDigest slice.digest
  digest : cd.digest = slice.digest
  placed : ∃ pid, cd.placements = [pid] ∧ Resolves store pid

/-- The record of some data. -/
structure Describes (H : StreamHash) (chunkSize : UInt64) (store : Store W) (data : Bytes)
    (rec : CheckpointRecord) : Prop where
  lifecycle : rec.lifecycle ≠ .gcEligible
  digest : rec.manifest.checkpointDigest = H.sha256 data
  chunks : ∃ slices, chunkStream H data chunkSize = .ok slices ∧
    List.Forall₂ (ChunkPlaced store) slices rec.chunks ∧
    rec.manifest.chunks.map ManifestEntry.chunkId =
      slices.map fun slice => chunkIdFromDigest slice.digest

/-- A change of the store that keeps placements resolvable, and of a record that keeps its
manifest and its chunks up to integrity, keeps the description. -/
theorem Describes.transfer {H : StreamHash} {chunkSize : UInt64} {store store' : Store W}
    {data : Bytes} {rec rec' : CheckpointRecord} (h : Describes H chunkSize store data rec)
    (hresolves : ∀ pid, Resolves store pid → Resolves store' pid)
    (hlifecycle : rec'.lifecycle ≠ .gcEligible) (hmanifest : rec'.manifest = rec.manifest)
    (hchunks : rec'.chunks.map ChunkDescriptor.content = rec.chunks.map ChunkDescriptor.content) :
    Describes H chunkSize store' data rec' := by
  obtain ⟨slices, hslices, hplaced, hentries⟩ := h.chunks
  refine ⟨hlifecycle, by rw [hmanifest]; exact h.digest, slices, hslices, ?_,
    by rw [hmanifest]; exact hentries⟩
  -- Being placed does not depend on the integrity of the descriptor.
  have hcontent : ∀ (chunks : List ChunkDescriptor) (store : Store W),
      List.Forall₂ (ChunkPlaced store) slices (chunks.map ChunkDescriptor.content) ↔
        List.Forall₂ (ChunkPlaced store) slices chunks := by
    intro chunks store
    rw [List.forall₂_map_right_iff]
    exact ⟨fun h => h.imp fun _ _ hcd => ⟨hcd.id, hcd.digest, hcd.placed⟩,
      fun h => h.imp fun _ _ hcd => ⟨hcd.id, hcd.digest, hcd.placed⟩⟩
  rw [← hcontent, hchunks, hcontent]
  refine hplaced.imp fun slice cd hcd => ⟨hcd.id, hcd.digest, ?_⟩
  obtain ⟨pid, hpid, hresolve⟩ := hcd.placed
  exact ⟨pid, hpid, hresolves pid hresolve⟩

/-! ## Placements stay resolvable -/

theorem resolves_quiet {R : W → W → Prop} {s s' : System W} (h : SameContent R s s')
    {pid : PlacementId} (hpid : Resolves s.store pid) : Resolves s'.store pid := by
  obtain ⟨pd, rd, b, hplacement, hreplica, hbackend⟩ := hpid
  have hcontent := h.replicas pd.replicaId
  rw [hreplica] at hcontent
  obtain ⟨rd', hreplica', hrd'⟩ := Option.map_eq_some_iff.mp hcontent
  have hbackendId : rd'.content.backendId = rd.content.backendId := by rw [hrd']
  exact ⟨pd, rd', b, (h.placements pid).trans hplacement, hreplica',
    by rw [h.backends]; exact hbackendId ▸ hbackend⟩

theorem Published.resolves {env : Env} {descriptor : CheckpointDescriptor} {data : Bytes}
    {s s' : System W} (h : Published env descriptor data s s') {pid : PlacementId}
    (hpid : Resolves s.store pid) : Resolves s'.store pid := by
  obtain ⟨pd, rd, b, hplacement, hreplica, hbackend⟩ := hpid
  obtain ⟨_, hbackends, _⟩ := h.store_eq
  refine ⟨pd, rd, b, ?_, ?_, by rw [hbackends]; exact hbackend⟩
  · cases h with
    | intro _ _ hrounds => exact hrounds.find_placement hplacement
  · cases h with
    | intro _ _ hrounds => exact hrounds.find_old_replica env descriptor data hreplica

theorem PublishFailed.resolves {env : Env} {descriptor : CheckpointDescriptor} {data : Bytes}
    {s s' : System W} (h : PublishFailed env descriptor data s s') {pid : PlacementId}
    (hpid : Resolves s.store pid) : Resolves s'.store pid := by
  obtain ⟨pd, rd, b, hplacement, hreplica, hbackend⟩ := hpid
  have hplacement' : s'.store.placements.find pid = some pd := by
    cases h with
    | rejected => exact hplacement
    | interrupted _ _ hrounds hstopped _ =>
        obtain ⟨c, hstore⟩ := hstopped.store_eq
        simp only [System.rolledBack, hstore]
        exact hrounds.find_placement hplacement
  obtain ⟨_, _, _, _, _, hstore⟩ := h.store_eq
  exact ⟨pd, rd, b, hplacement', by rw [hstore]; exact hreplica, by rw [hstore]; exact hbackend⟩

theorem GcRan.resolves {env : Env} {s s' : System W} (h : GcRan env s s') {pid : PlacementId}
    (hpid : Resolves s.store pid) : Resolves s'.store pid := by
  obtain ⟨_, _, _, _, _, hstore⟩ := h.store_eq
  rw [hstore]
  exact hpid

/-! ## A publication enters the record of its data -/

/-- A chunk recorded by a publication under way, placed in the publication's replica. -/
structure ChunkRecorded (p : Publishing W) (slice : ChunkSlice) (cd : ChunkDescriptor) :
    Prop where
  id : cd.id = chunkIdFromDigest slice.digest
  digest : cd.digest = slice.digest
  placed : ∃ pid pd, cd.placements = [pid] ∧
    p.system.store.placements.find pid = some pd ∧ pd.replicaId = p.locals.replicaId

/-- The locals of a publication that has recorded the given chunks. -/
structure Recording (done : List ChunkSlice) (p : Publishing W) : Prop where
  chunks : List.Forall₂ (ChunkRecorded p) done p.locals.chunkDescriptors
  entries : p.locals.manifestEntries = done.map fun slice =>
    { chunkId := chunkIdFromDigest slice.digest, logicalOffset := slice.range.logicalOffset }

section Recording

variable {underlay : IBackend W}

theorem Recording.round {done : List ChunkSlice} {slice : ChunkSlice} {p q : Publishing W}
    {blobId : BlobId} (h : Recording done p) (hs : Numbered p.system)
    (hroom : 1000 + p.system.idsDrawn < 2 ^ 64) (hacquired : Acquired underlay slice p blobId q) :
    Recording (done ++ [slice]) (recordChunk slice blobId q) := by
  obtain ⟨hchunks, hentries, hreplica⟩ := hacquired.locals_eq
  obtain ⟨_, _, hstore⟩ := hacquired.store_eq
  have hfresh : q.system.store.placements.find ⟨q.system.store.nextIdCounter⟩ = none :=
    (hs.acquired hacquired).placement_fresh (by rw [hacquired.ids_drawn]; exact hroom)
  have hplacement := UnorderedMap.find_emplace q.system.store.placements
    ⟨q.system.store.nextIdCounter⟩ ⟨q.system.store.nextIdCounter⟩
    (newPlacement ⟨q.system.store.nextIdCounter⟩ q.locals.replicaId
      q.system.store.primaryBackendId (byteSize slice.bytes))
  rw [if_pos rfl, hfresh] at hplacement
  refine ⟨?_, ?_⟩
  · show List.Forall₂ _ _ (q.locals.chunkDescriptors ++ [_])
    rw [hchunks]
    refine List.rel_append ?_ (.cons ⟨rfl, rfl, _, _, rfl, hplacement, rfl⟩ .nil)
    refine h.chunks.imp fun slice' cd hcd => ⟨hcd.id, hcd.digest, ?_⟩
    obtain ⟨pid, pd, hpid, hfind, hpd⟩ := hcd.placed
    refine ⟨pid, pd, hpid, UnorderedMap.find_emplace_of_some ?_, hpd.trans hreplica.symm⟩
    rw [hstore]
    exact hfind
  · show q.locals.manifestEntries ++ [_] = _
    rw [hentries, h.entries, List.map_append]
    rfl

/-- The chunk loop records every slice. -/
theorem Recording.rounds {done slices : List ChunkSlice} {p p' : Publishing W}
    (h : Recording done p) (hs : Numbered p.system)
    (hroom : 1000 + p'.system.idsDrawn ≤ 2 ^ 64) (hrounds : Rounds underlay slices p p') :
    Recording (done ++ slices) p' := by
  induction hrounds generalizing done with
  | nil p => simpa using h
  | @cons slice rest p q p' blobId hacquired hrest ih =>
      have hdrawn := hrest.ids_drawn
      have hdrawn' : (recordChunk slice blobId q).system.idsDrawn = q.system.idsDrawn + 1 := rfl
      have hsame := hacquired.ids_drawn
      rw [List.append_cons]
      exact ih (h.round hs (by omega) hacquired) ((hs.acquired hacquired).record_chunk _) hroom

/-- Entries in the order of the chunks are in the order of their offsets. -/
theorem sorted_entries_of_slices {H : StreamHash} {data : Bytes} {chunkSize : UInt64}
    {slices : List ChunkSlice} {l : PublishLocals}
    (hentries : l.manifestEntries = slices.map fun slice =>
      { chunkId := chunkIdFromDigest slice.digest, logicalOffset := slice.range.logicalOffset })
    (hslices : chunkStream H data chunkSize = .ok slices) (hlength : data.length < 2 ^ 64) :
    sortedEntries l = l.manifestEntries := by
  refine List.Pairwise.insertionSort_eq ?_
  rw [hentries, List.pairwise_map]
  refine contiguous_sorted (chunk_stream_offsets hslices) ?_
  rw [chunk_stream_flatten hslices]
  omega

end Recording

/-- Unless the identity counter has wrapped around, the chunks of a publication are recorded, in a
new replica. -/
theorem Rounds.recording {underlay : IBackend W} {slices : List ChunkSlice} {s : System W}
    {p : Publishing W} (h : Rounds underlay slices (.start s) p) (hs : Numbered s)
    (hroom : 1000 + p.system.idsDrawn + 1 ≤ 2 ^ 64) :
    Recording slices p ∧ s.store.replicas.find p.locals.replicaId = none := by
  have hdrawn : p.system.idsDrawn = s.idsDrawn + 1 + slices.length := h.ids_drawn
  refine ⟨(⟨.nil, rfl⟩ : Recording [] (.start s)).rounds hs.start (by omega) h, ?_⟩
  rw [h.replica_id]
  exact hs.replica_fresh (by omega)

/-- A publication enters a record that describes its data, unless the identity counter has
wrapped around. -/
theorem Published.describes {env : Env} {descriptor : CheckpointDescriptor} {data : Bytes}
    {s s' : System W} (h : Published env descriptor data s s') (hs : Numbered s)
    (hroom : 1000 + s'.idsDrawn ≤ 2 ^ 64) (hlength : data.length < 2 ^ 64) :
    ∃ rec, s'.store.checkpoints.find descriptor.id = some rec ∧ rec.descriptor = descriptor ∧
      Describes env.hash s.store.options.chunkSize s'.store data rec := by
  obtain ⟨_, hbackends, _⟩ := h.store_eq
  cases h with
  | @intro underlay slices p w hadmitted hslices hrounds _ _ =>
      have hroom' : 1000 + p.system.idsDrawn + 1 ≤ 2 ^ 64 := hroom
      obtain ⟨hrecording, hfresh⟩ := hrounds.recording hs hroom'
      -- The replica drawn at the start is new, so the commit registers it.
      have hregistered := hrounds.find_new_replica env descriptor data hfresh
      have hbackend : (publishedStore env descriptor data p).backends.find
          s.store.primaryBackendId = some underlay := by
        rw [hbackends]
        exact hadmitted.backend
      have hfind := hrounds.find_published hadmitted.fresh env data descriptor.id
      rw [if_pos rfl] at hfind
      refine ⟨_, hfind, rfl, by simp [publishedRecord, newRecord], rfl, slices, hslices, ?_, ?_⟩
      · refine hrecording.chunks.imp fun slice cd hcd => ⟨hcd.id, hcd.digest, ?_⟩
        obtain ⟨pid, pd, hpid, hplacement, hpd⟩ := hcd.placed
        exact ⟨pid, hpid, pd, _, underlay, hplacement, by rw [hpd]; exact hregistered, hbackend⟩
      · show (sortedEntries p.locals).map ManifestEntry.chunkId = _
        rw [sorted_entries_of_slices hrecording.entries hslices hlength, hrecording.entries,
          List.map_map]
        rfl

/-! ## Records stay -/

/-- Every publication that returned has its record. -/
def Recorded (H : StreamHash) (chunkSize : UInt64) (events : List (Event W)) (s : System W) :
    Prop :=
  ∀ descriptor data, .call (.publish descriptor data) none ∈ events →
    ∃ rec, s.store.checkpoints.find descriptor.id = some rec ∧ rec.descriptor = descriptor ∧
      Describes H chunkSize s.store data rec

/-- The event publishes at most `2 ^ 63 - 1` bytes, under a descriptor with their number. -/
def Event.Sized (e : Event W) : Prop :=
  ∀ published ∈ e.publication, published.2.length ≤ maxVectorSize ∧
    published.1.logicalSize = byteSize published.2

instance : DecidablePred (Event.Sized (W := W)) := fun e =>
  inferInstanceAs (Decidable (∀ published ∈ e.publication, _))

theorem Event.Sized.length_lt {e : Event W} (h : e.Sized) :
    ∀ publication ∈ e.publication, publication.2.length < 2 ^ 64 :=
  fun publication hin => (h publication hin).1.trans_lt (by decide)

/-- The record of some data stays their record until a restart. -/
theorem Transition.describes {env : Env} {R : W → W → Prop} {chunkSize : UInt64}
    {s s' : System W} {e : Event W} (h : Transition env R s e s') (hreopens : e.reopens = false)
    {id : CheckpointId} {rec : CheckpointRecord} {data : Bytes}
    (hfind : s.store.checkpoints.find id = some rec)
    (hdescribes : Describes env.hash chunkSize s.store data rec) :
    ∃ rec', s'.store.checkpoints.find id = some rec' ∧ rec'.descriptor = rec.descriptor ∧
      Describes env.hash chunkSize s'.store data rec' := by
  cases h with
  | quiet _ h =>
      have hcontent := h.checkpoints id
      rw [hfind] at hcontent
      obtain ⟨rec', hfind', hrec'⟩ := Option.map_eq_some_iff.mp hcontent
      have hlifecycle : rec'.lifecycle.content = rec.lifecycle.content :=
        congrArg CheckpointRecord.lifecycle hrec'
      refine ⟨rec', hfind', ?_, hdescribes.transfer (fun _ => resolves_quiet h) ?_ ?_ ?_⟩
      · exact (congrArg CheckpointRecord.descriptor hrec' :
          rec'.content.descriptor = rec.content.descriptor)
      · exact CheckpointLifecycle.content_eligible hlifecycle hdescribes.lifecycle
      · exact (congrArg CheckpointRecord.manifest hrec' :
          rec'.content.manifest = rec.content.manifest)
      · exact (congrArg CheckpointRecord.chunks hrec' :
          rec'.content.chunks = rec.content.chunks)
  | published h =>
      refine ⟨rec, ?_, rfl, hdescribes.transfer (fun _ => h.resolves) hdescribes.lifecycle rfl rfl⟩
      cases h with
      | intro _ _ hrounds =>
          obtain ⟨_, _, _, _, _, hstore⟩ := hrounds.store_eq
          refine UnorderedMap.find_emplace_of_some ?_
          rw [hstore]
          exact hfind
  | publishFailed h =>
      obtain ⟨_, _, _, _, _, hstore⟩ := h.store_eq
      exact ⟨rec, by rw [hstore]; exact hfind, rfl,
        hdescribes.transfer (fun _ => h.resolves) hdescribes.lifecycle rfl rfl⟩
  | gcRan h =>
      obtain ⟨eligible, hcheckpoints⟩ := h.checkpoints_eq
      rw [hcheckpoints]
      rcases find_sweep eligible hfind with hfind' | hfind'
      · exact ⟨rec, hfind', rfl,
          hdescribes.transfer (fun _ => h.resolves) hdescribes.lifecycle rfl rfl⟩
      · exact ⟨_, hfind', rfl, hdescribes.transfer (fun _ => h.resolves) (by simp) rfl rfl⟩
  | reopened => simp [Event.reopens] at hreopens

/-- Every step but a restart keeps the records, and a publication adds its own. -/
theorem Transition.recorded {env : Env} {R : W → W → Prop} {chunkSize : UInt64}
    {s s' : System W} {e : Event W} {events : List (Event W)} (h : Transition env R s e s')
    (hreopens : e.reopens = false)
    (hlength : ∀ published ∈ e.publication, published.2.length < 2 ^ 64) (hs : Numbered s)
    (hroom : 1000 + s'.idsDrawn ≤ 2 ^ 64) (hsize : s.store.options.chunkSize = chunkSize)
    (hrecorded : Recorded env.hash chunkSize events s) :
    Recorded env.hash chunkSize (events ++ [e]) s' := by
  intro descriptor data hin
  rw [List.mem_append, List.mem_singleton] at hin
  rcases hin with hin | rfl
  · obtain ⟨rec, hfind, hdescriptor, hdescribes⟩ := hrecorded descriptor data hin
    obtain ⟨rec', hfind', hdescriptor', hdescribes'⟩ := h.describes hreopens hfind hdescribes
    exact ⟨rec', hfind', hdescriptor'.trans hdescriptor, hdescribes'⟩
  · -- Of the transitions only a publication that returns has this event.
    subst hsize
    cases h with
    | quiet hevent => simp [Event.publication] at hevent
    | published h => exact h.describes hs hroom (hlength _ rfl)

/-! ## Restoring -/

/-- The source of a manifest entry: the chunk it names has one candidate replica, on the backend
`b`, which holds the bytes `x` under the right digest. -/
structure Ready (env : Env) (b : IBackend W) (view : ObjectView W) (rec : CheckpointRecord)
    (s : System W) (entry : ManifestEntry) (x : Bytes) : Prop where
  source : ∃ cd rid rd, rec.chunks.find? (fun cd => cd.id = entry.chunkId) = some cd ∧
    candidates s.store rec cd = [rid] ∧ s.store.replicas.find rid = some rd ∧
    s.store.backends.find rd.backendId = some b ∧
    view.objects s.world (blobKey cd.digest) = some x ∧ env.hash.sha256 x = cd.digest

section Restoring

variable {env : Env} {b : IBackend W} {view : ObjectView W} {healthy : W → Prop}

/-- A restore keeps the store and the objects while it reads. -/
def Undisturbed (view : ObjectView W) (healthy : W → Prop) (s s' : System W) : Prop :=
  ∃ w, s' = { s with world := w } ∧ view.Same s.world w ∧ healthy w

theorem Ready.undisturbed {rec : CheckpointRecord} {s s' : System W} {entry : ManifestEntry}
    {x : Bytes} (h : Ready env b view rec s entry x)
    (hs : Undisturbed view healthy s s') : Ready env b view rec s' entry x := by
  obtain ⟨w, rfl, hsame, _⟩ := hs
  obtain ⟨cd, rid, rd, hchunk, hcandidates, hreplica, hbackend, hobject, hhash⟩ := h.source
  exact ⟨cd, rid, rd, hchunk, hcandidates, hreplica, hbackend, by rw [hsame]; exact hobject,
    hhash⟩

/-- A single good candidate is found. -/
theorem post_restore_chunk (hserves : b.Serves view healthy) {s : System W}
    {id : CheckpointId} {cd : ChunkDescriptor} {rid : ReplicaId} {rd : ReplicaDescriptor}
    {evidence : RestoreEvidence} {x : Bytes} (hreplica : s.store.replicas.find rid = some rd)
    (hbackend : s.store.backends.find rd.backendId = some b)
    (hobject : view.objects s.world (blobKey cd.digest) = some x)
    (hhash : env.hash.sha256 x = cd.digest) (hhealthy : healthy s.world) :
    Post (restoreChunk env id cd [rid] evidence) s
      (fun found s' => found.1 = some x ∧ Undisturbed view healthy s s') (fun _ _ => False) := by
  simp only [restoreChunk, post_bind, post_get, hreplica, hbackend, post_call_backend]
  refine (hserves.health _ hhealthy).mono (fun up w hw => ?_) (fun _ _ hw => hw)
  obtain ⟨rfl, hsame, hup⟩ := hw
  have hobject' : view.objects w (blobKey cd.digest) = some x := by rw [hsame]; exact hobject
  simp only [Bool.true_eq_false, if_false, post_bind, readSource, post_try_catch,
    post_call_backend, post_pure]
  refine (hserves.read _ _ _ hup hobject').mono (fun rb w' hw' => ?_) (fun _ _ hw' => hw'.elim)
  obtain ⟨rfl, hsame', hup'⟩ := hw'
  simp only [hhash, if_true, post_pure]
  exact ⟨trivial, w', rfl, hsame.trans hsame', hup'⟩

/-- The loop appends the bytes of every chunk and feeds them to the hash, as long as memory has room
for them. -/
theorem post_restore_chunks (hserves : b.Serves view healthy) {id : CheckpointId}
    {rec : CheckpointRecord} {entries : List ManifestEntry} {parts : List Bytes} {limit : Nat}
    {s : System W} (progress : RestoreProgress env)
    (hready : List.Forall₂ (Ready env b view rec s) entries parts) (hhealthy : healthy s.world)
    (hroom : progress.out.length ≤ limit) :
    Post (restoreChunks env limit id rec entries progress) s
      (fun progress' _ => progress'.out.length ≤ limit ∧
        progress'.out = progress.out ++ parts.flatten ∧
        progress'.combined = parts.foldl env.hash.update progress.combined)
      (fun _ _ => limit < (progress.out ++ parts.flatten).length) := by
  induction entries generalizing parts s progress with
  | nil =>
      cases hready with
      | nil => exact ⟨hroom, by simp, rfl⟩
  | cons entry rest ih =>
      cases hready with
      | @cons _ x _ parts hentry hrest =>
          obtain ⟨cd, rid, rd, hchunk, hcandidates, hreplica, hbackend, hobject, hhash⟩ :=
            hentry.source
          simp only [restoreChunks, hchunk, post_bind, post_get, hcandidates, List.flatten_cons,
            ← List.append_assoc]
          refine (post_restore_chunk hserves hreplica hbackend hobject hhash hhealthy).mono
            (fun found s₁ hfound => ?_) (fun _ _ h => h.elim)
          obtain ⟨hbytes, hundisturbed⟩ := hfound
          have hhealthy₁ : healthy s₁.world := by
            obtain ⟨w, rfl, _, hw⟩ := hundisturbed
            exact hw
          simp only [hbytes, post_ite, post_throw]
          refine ⟨fun hlarge => ?_, fun hfits => ?_⟩
          · rw [List.length_append]
            exact Nat.lt_add_right _ hlarge
          · exact (ih _ (hrest.imp fun _ _ h => h.undisturbed hundisturbed) hhealthy₁
              (Nat.not_lt.mp hfits)).mono (fun _ _ h => h) fun _ _ h => h

/-- With every entry ready, a restore returns the concatenated chunks exactly when memory has room
for the declared size and for them, and they have the digest of the manifest. -/
theorem post_restore (hserves : b.Serves view healthy) (restoreId : RestoreId)
    {id : CheckpointId} {rec : CheckpointRecord} {parts : List Bytes} {s : System W}
    (hfind : s.store.checkpoints.find id = some rec)
    (hlive : rec.lifecycle ≠ .deleted) (heligible : rec.lifecycle ≠ .gcEligible)
    (hready : List.Forall₂ (Ready env b view rec s) rec.manifest.chunks parts)
    (hhealthy : healthy s.world) :
    Post (restore env restoreId id) s
      (fun restored _ => restored.bytes = parts.flatten ∧
        rec.descriptor.logicalSize.toNat ≤ env.memory s.ticks ∧
        parts.flatten.length ≤ env.memory s.ticks ∧
        rec.manifest.checkpointDigest = env.hash.sha256 parts.flatten)
      (fun _ _ => ¬(rec.descriptor.logicalSize.toNat ≤ env.memory s.ticks ∧
        parts.flatten.length ≤ env.memory s.ticks ∧
        rec.manifest.checkpointDigest = env.hash.sha256 parts.flatten)) := by
  have hnot : ¬ (rec.lifecycle = .gcEligible ∨ rec.lifecycle = .deleted) := by
    rintro (h | h)
    · exact heligible h
    · exact hlive h
  simp only [restore, post_bind, post_get, hfind, hnot, if_false, post_ite]
  refine ⟨fun hlarge h => absurd h.1 (Nat.not_le.mpr hlarge), fun hsize => ?_⟩
  refine (post_restore_chunks hserves _ hready hhealthy (Nat.zero_le _)).mono
    (fun progress s' h => ?_) (fun _ _ hlarge h => absurd h.2.1 (Nat.not_le.mpr hlarge))
  obtain ⟨hroom, hout, hcombined⟩ := h
  rw [RestoreProgress.start_out, List.nil_append] at hout
  have hfinal : env.hash.final progress.combined = env.hash.sha256 parts.flatten := by
    rw [hcombined, RestoreProgress.start_combined, env.hash.final_foldl]
    rfl
  simp only [finishRestore, hfinal, post_ite, post_bind, post_modify_store, post_pure]
  exact ⟨fun hdigest h => hdigest h.2.2.symm,
    fun hdigest => ⟨hout, Nat.not_lt.mp hsize, hout ▸ hroom, (not_not.mp hdigest).symm⟩⟩

/-- A restore of data that memory has room for. -/
theorem restore_returns (hserves : b.Serves view healthy) (restoreId : RestoreId)
    {id : CheckpointId} {rec : CheckpointRecord} {parts : List Bytes} {s : System W}
    {data : Bytes} (hfind : s.store.checkpoints.find id = some rec)
    (hlive : rec.lifecycle ≠ .deleted) (heligible : rec.lifecycle ≠ .gcEligible)
    (hsize : rec.descriptor.logicalSize.toNat ≤ env.memory s.ticks)
    (hroom : data.length ≤ env.memory s.ticks)
    (hready : List.Forall₂ (Ready env b view rec s) rec.manifest.chunks parts)
    (hdata : parts.flatten = data)
    (hdigest : rec.manifest.checkpointDigest = env.hash.sha256 data)
    (hhealthy : healthy s.world) :
    ∃ restored s', restore env restoreId id s = .ok restored s' ∧ restored.bytes = data := by
  subst hdata
  have hpost := post_restore hserves restoreId hfind hlive heligible hready hhealthy
  cases hrun : restore env restoreId id s with
  | ok restored s' => exact ⟨restored, s', rfl, (hpost.of_ok hrun).1⟩
  | error e s' => exact absurd ⟨hsize, hroom, hdigest⟩ (hpost.of_error hrun)

end Restoring

/-! ## Runs -/

theorem exists_of_mem_left {α β : Type} {R : α → β → Prop} {l : List α} {u : List β}
    (h : List.Forall₂ R l u) {a : α} (ha : a ∈ l) : ∃ x ∈ u, R a x := by
  induction h with
  | nil => simp at ha
  | cons hR _ ih =>
      rcases List.mem_cons.mp ha with rfl | ha
      · exact ⟨_, by simp, hR⟩
      · obtain ⟨x, hx, hax⟩ := ih ha
        exact ⟨x, List.mem_cons_of_mem _ hx, hax⟩

/-- Lists with the same images pair elements with the same images. -/
theorem forall₂_of_map_eq {α β γ : Type} {f : α → γ} {g : β → γ} {l : List α} {u : List β}
    (h : l.map f = u.map g) : List.Forall₂ (fun a x => a ∈ l ∧ x ∈ u ∧ f a = g x) l u := by
  rw [← List.forall₂_eq_eq_eq, List.forall₂_map_left_iff, List.forall₂_map_right_iff] at h
  have hright : List.Forall₂ (fun x a => x ∈ u ∧ f a = g x) u l := by
    rw [List.forall₂_and_left]
    exact ⟨fun _ hx => hx, h.flip⟩
  rw [List.forall₂_and_left]
  exact ⟨fun _ ha => ha, hright.flip⟩

/-- Searching two related lists finds related elements. -/
theorem find_forall₂ {α β : Type} {R : α → β → Prop} {p : α → Bool} {q : β → Bool} {l : List α}
    {u : List β} (h : List.Forall₂ R l u) (hpq : ∀ a x, R a x → p a = q x) {a : α}
    (hfind : l.find? p = some a) : ∃ x, u.find? q = some x ∧ R a x := by
  induction h with
  | nil => cases hfind
  | @cons a' x' _ _ hR _ ih =>
      rw [List.find?_cons] at hfind ⊢
      rw [← hpq a' x' hR]
      split at hfind
      · cases hfind
        exact ⟨x', rfl, hR⟩
      · exact ih hfind

/-- A search for something that is in the list finds it or something before it. -/
theorem find_of_mem {α : Type} {p : α → Bool} {l : List α} {a : α} (hin : a ∈ l) (hp : p a = true) :
    l.find? p = some ((l.find? p).getD a) := by
  obtain ⟨c, hc⟩ := Option.isSome_iff_exists.mp (List.find?_isSome.mpr ⟨a, hin, hp⟩)
  rw [hc, Option.getD_some]

/-- A placement that resolves is the only candidate of its chunk. -/
theorem candidates_of_resolves {store : Store W} {rec : CheckpointRecord} {cd : ChunkDescriptor}
    {pid : PlacementId} {pd : PlacementDescriptor} (hplacements : cd.placements = [pid])
    (hfind : store.placements.find pid = some pd) :
    candidates store rec cd = [pd.replicaId] := by
  simp [candidates, hplacements, hfind]

section Ready

/-- The hash separates the contents. -/
def SeparatesBy (H : StreamHash) (C : Bytes → Prop) : Prop :=
  ∀ x y, C x → C y → H.sha256 x = H.sha256 y → x = y

/-- Chunks with the same identity have the same content. -/
def DistinctChunks (slices : List ChunkSlice) : Prop :=
  ∀ a ∈ slices, ∀ c ∈ slices, chunkIdFromDigest a.digest = chunkIdFromDigest c.digest →
    a.bytes = c.bytes

/-- The first chunk with the identity of a chunk. -/
def firstLike (slices : List ChunkSlice) (slice : ChunkSlice) : ChunkSlice :=
  (slices.find? fun c => chunkIdFromDigest c.digest = chunkIdFromDigest slice.digest).getD slice

/-- The first chunk with an identity is found. -/
theorem find_first_like {slices : List ChunkSlice} {slice : ChunkSlice} (hin : slice ∈ slices) :
    slices.find? (fun c => chunkIdFromDigest c.digest = chunkIdFromDigest slice.digest) =
      some (firstLike slices slice) :=
  find_of_mem hin (by simp)

/-- What a restore puts together: each entry is resolved to the first chunk with its identity. -/
def resolvedParts (slices : List ChunkSlice) : List Bytes :=
  slices.map fun slice => (firstLike slices slice).bytes

theorem DistinctChunks.resolved_parts {slices : List ChunkSlice} (h : DistinctChunks slices) :
    resolvedParts slices = slices.map ChunkSlice.bytes := by
  refine List.map_congr_left fun slice hin => ?_
  have hfind := find_first_like hin
  exact h _ (List.mem_of_find?_eq_some hfind) _ hin (by simpa using List.find?_some hfind)

/-- Chunks that have one length, but for the last, are put together as they were cut only if each is
found under its identity. -/
theorem resolved_parts_of_flatten (n : Nat) {slices : List ChunkSlice}
    (hwhole : ∀ i slice, slices[i]? = some slice → i + 1 < slices.length →
      slice.bytes.length = n)
    (h : (resolvedParts slices).flatten = (slices.map ChunkSlice.bytes).flatten) :
    resolvedParts slices = slices.map ChunkSlice.bytes := by
  -- The parts have the lengths of the chunks, so equal concatenations have equal parts.
  refine List.eq_iff_flatten_eq.mpr ⟨h, ?_⟩
  rcases List.eq_nil_or_concat slices with rfl | ⟨whole, last, rfl⟩
  · rfl
  have hin : ∀ slice ∈ whole, slice.bytes.length = n := by
    intro slice hslice
    obtain ⟨i, hi, rfl⟩ := List.getElem_of_mem hslice
    exact hwhole i _ (by simp [List.getElem?_append_left hi, hi]) (by simp [hi])
  have hlike : ∀ slice ∈ whole, (firstLike (whole.concat last) slice).bytes.length = n := by
    intro slice hslice
    have hfirst := find_first_like hslice
    have hsame : firstLike (whole.concat last) slice = firstLike whole slice := by
      rw [firstLike, List.concat_eq_append, List.find?_append, hfirst]
      rfl
    rw [hsame]
    exact hin _ (List.mem_of_find?_eq_some hfirst)
  have hwholes : whole.map (fun slice => (firstLike (whole.concat last) slice).bytes.length) =
      whole.map (fun slice => slice.bytes.length) :=
    List.map_congr_left fun slice hslice => by rw [hlike slice hslice, hin slice hslice]
  have hlength := congrArg List.length h
  simp only [resolvedParts, List.length_flatten, List.map_map, List.concat_eq_append,
    List.map_append, Function.comp_def, List.map_cons, List.map_nil] at hlength hwholes ⊢
  rw [hwholes, List.sum_append, List.sum_append, Nat.add_left_cancel_iff] at hlength
  rw [hwholes, List.sum_singleton.symm.trans (hlength.trans List.sum_singleton)]

/-- Chunks that are found under their identities have one content for each identity. -/
theorem distinct_of_resolved {slices : List ChunkSlice}
    (hparts : resolvedParts slices = slices.map ChunkSlice.bytes) : DistinctChunks slices := by
  intro a ha c hc hid
  have hresolved : ∀ slice ∈ slices, (firstLike slices slice).bytes = slice.bytes :=
    List.map_inj_left.mp hparts
  have hfirst : firstLike slices a = firstLike slices c := by
    have ha' := find_first_like ha
    rw [hid, find_first_like hc] at ha'
    exact (Option.some.inj ha').symm
  rw [← hresolved a ha, hfirst, hresolved c hc]

variable {env : Env} {b : IBackend W} {view : ObjectView W} {C : Bytes → Prop}
  {chunkSize : UInt64} {s : System W} {id : CheckpointId} {rec : CheckpointRecord}

/-- Every entry of a manifest is ready if the objects of the chunks are there. -/
theorem ready_of_held (hbackends : ∀ id b', s.store.backends.find id = some b' → b' = b)
    (hseparates : SeparatesBy env.hash C)
    (hheld : ∀ cd ∈ rec.chunks, ∃ x, view.objects s.world (blobKey cd.digest) = some x ∧
      env.hash.sha256 x = cd.digest ∧ C x)
    {slices : List ChunkSlice} (hok : ∀ slice ∈ slices, SliceOk env.hash slice ∧ C slice.bytes)
    (hplaced : List.Forall₂ (ChunkPlaced s.store) slices rec.chunks)
    (hentries : rec.manifest.chunks.map ManifestEntry.chunkId =
      slices.map fun slice => chunkIdFromDigest slice.digest) :
    List.Forall₂ (Ready env b view rec s) rec.manifest.chunks (resolvedParts slices) := by
  rw [resolvedParts, List.forall₂_map_right_iff]
  refine (forall₂_of_map_eq hentries).imp fun entry slice hpair => ?_
  obtain ⟨_, hin, hentry⟩ := hpair
  have hfirst := find_first_like hin
  obtain ⟨hslice, hcontent⟩ := hok _ (List.mem_of_find?_eq_some hfirst)
  -- The first chunk with the identity of the entry belongs to the first slice with it.
  obtain ⟨cd, hchunk, hcd⟩ := find_forall₂ hplaced
    (fun c cd h => by rw [h.id]) hfirst (q := fun cd => cd.id = chunkIdFromDigest slice.digest)
  rw [← hentry] at hchunk
  have hdigest : cd.digest = env.hash.sha256 (firstLike slices slice).bytes := by
    rw [hcd.digest, hslice.digest_eq]
  -- The object under its digest has the same content.
  obtain ⟨x, hobject, hhash, hx⟩ := hheld cd (List.mem_of_find?_eq_some hchunk)
  have hsame : x = (firstLike slices slice).bytes :=
    hseparates _ _ hx hcontent (by rw [hhash, hdigest])
  obtain ⟨pid, hplacements, pd, rd, b', hplacement, hreplica, hbackend⟩ := hcd.placed
  obtain rfl := hbackends _ _ hbackend
  exact ⟨cd, pd.replicaId, rd, hchunk, candidates_of_resolves hplacements hplacement, hreplica,
    hbackend, by rw [hobject, hsame], hdigest.symm⟩

/-- Every entry of the manifest of a live checkpoint is ready. -/
theorem Describes.ready (hs : Supplied env b view C chunkSize s)
    (hseparates : SeparatesBy env.hash C) (hfind : s.store.checkpoints.find id = some rec)
    (hlive : rec.lifecycle ≠ .deleted)
    {slices : List ChunkSlice} (hok : ∀ slice ∈ slices, SliceOk env.hash slice ∧ C slice.bytes)
    (hplaced : List.Forall₂ (ChunkPlaced s.store) slices rec.chunks)
    (hentries : rec.manifest.chunks.map ManifestEntry.chunkId =
      slices.map fun slice => chunkIdFromDigest slice.digest) :
    List.Forall₂ (Ready env b view rec s) rec.manifest.chunks (resolvedParts slices) := by
  refine ready_of_held hs.backends hseparates (fun cd hcd => ?_) hok hplaced hentries
  obtain ⟨_, _, x, hobject, hhash, _, hx⟩ := hs.held_of_chunk hfind hlive hcd
  exact ⟨x, hobject, hhash, hx⟩

end Ready

/-- The contents of all chunks that a run tries to publish. -/
def contentsOf (H : StreamHash) (chunkSize : UInt64) (events : List (Event W)) : List Bytes :=
  events.flatMap (Event.contents H chunkSize)

/-- No live checkpoint loses data. In every run of a fresh store over one lawful backend that
nobody else alters, without a restart, in which different chunk contents have different chunk
identities and fewer than `2 ^ 64 - 1000` identities are drawn: whatever was published has its
record, and as long as that is not deleted, a restore returns exactly the published data. -/
theorem live_checkpoint_restores {env : Env} {b : IBackend W} {view : ObjectView W}
    {healthy : W → Prop} (hb : b.Lawful env.hash view) (hserves : b.Serves view healthy)
    {options : StoreOptions} {backends : UnorderedMap StorageBackendId (IBackend W)} {w : W}
    (hbackends : ∀ id b', backends.find id = some b' → b' = b) {events : List (Event W)}
    {s : System W} (hrun : Run (Step env view.Same) (.fresh options backends w) events s)
    (hevents : ∀ e ∈ events, e.reopens = false ∧ e.Sized)
    (hdistinct : ∀ x ∈ contentsOf env.hash options.chunkSize events,
      ∀ y ∈ contentsOf env.hash options.chunkSize events,
      chunkIdFromDigest (env.hash.sha256 x) = chunkIdFromDigest (env.hash.sha256 y) → x = y)
    (hroom : 1000 + s.idsDrawn ≤ 2 ^ 64) (hhealthy : healthy s.world)
    {descriptor : CheckpointDescriptor} {data : Bytes}
    (hpublished : .call (.publish descriptor data) none ∈ events)
    (hmemory : data.length ≤ env.memory s.ticks) (restoreId : RestoreId) :
    ∃ rec, s.store.checkpoints.find descriptor.id = some rec ∧ (rec.lifecycle ≠ .deleted →
      ∃ restored s', restore env restoreId descriptor.id s = .ok restored s' ∧
        restored.bytes = data) := by
  have hinvariant : Supplied env b view (· ∈ contentsOf env.hash options.chunkSize events)
      options.chunkSize s ∧ Numbered s ∧
      (1000 + s.idsDrawn ≤ 2 ^ 64 → Recorded env.hash options.chunkSize events s) := by
    refine supplied_invariant hb hbackends
      (A := fun e => e ∈ events ∧ e.reopens = false ∧ e.Sized)
      (fun e he => ⟨he.2.1, fun x hx => List.mem_flatMap.mpr ⟨e, he.1, hx⟩⟩)
      (fun past s => Numbered s ∧
        (1000 + s.idsDrawn ≤ 2 ^ 64 → Recorded env.hash options.chunkSize past s)) ?_ ?_ hrun
      fun e hin => ⟨hin, hevents e hin⟩
    · exact ⟨.fresh, fun _ _ _ hin => by simp at hin⟩
    · rintro past s₁ e s₂ hs ⟨hn, hr⟩ ⟨_, hreopens, hsized⟩ htransition
      have hmono := htransition.ids_drawn_le hreopens
      exact ⟨htransition.numbered hreopens hn, fun hroom₂ =>
        htransition.recorded hreopens hsized.length_lt hn hroom₂ hs.chunkSize_eq (hr (by omega))⟩
  obtain ⟨hs, _, hrecorded⟩ := hinvariant
  obtain ⟨rec, hfind, hdescriptor, hdescribes⟩ := hrecorded hroom descriptor data hpublished
  refine ⟨rec, hfind, fun hlive => ?_⟩
  obtain ⟨slices, hslices, hplaced, hentries⟩ := hdescribes.chunks
  have hok : ∀ slice ∈ slices, SliceOk env.hash slice ∧
      slice.bytes ∈ contentsOf env.hash options.chunkSize events := fun slice hin =>
    ⟨chunk_stream_slice_ok hslices hin,
      List.mem_flatMap.mpr ⟨_, hpublished, mem_contents_publish hslices hin⟩⟩
  have hready := Describes.ready hs (fun x y hx hy hhash => hdistinct x hx y hy (by rw [hhash]))
    hfind hlive hok hplaced hentries
  have hchunks : DistinctChunks slices := fun a ha c hc hid =>
    hdistinct _ (hok a ha).2 _ (hok c hc).2 (by
      rw [← (hok a ha).1.digest_eq, ← (hok c hc).1.digest_eq, hid])
  obtain ⟨hlength, hlogical⟩ := (hevents _ hpublished).2 _ rfl
  have hsize : rec.descriptor.logicalSize.toNat ≤ env.memory s.ticks := by
    rw [hdescriptor, hlogical, byte_size_to_nat (Nat.lt_of_le_of_lt hlength (by decide))]
    exact hmemory
  exact restore_returns hserves restoreId hfind hlive hdescribes.lifecycle hsize hmemory hready
    (by rw [hchunks.resolved_parts, chunk_stream_flatten hslices]) hdescribes.digest hhealthy

/-- A publication, another one that fails at its second chunk, and a collection. -/
def publishedThenFailed : List (Op MemoryWorld) := [
  .createFamily,
  .publish (sampleDescriptor 7 1 3) [0, 1, 0],
  .publish (sampleDescriptor 8 2 2) [1, 2],
  .gcPlan,
  .gcRun]

/-- The fault hits the staging of the last chunk. -/
def failAtSecondChunk : List Bool := [false, false, false, false, false, false, false, true]

/-- A later publication fails at its second chunk. -/
theorem live_checkpoint_restores_after_failure :
    ∃ restored s', restore (sampleEnv tagHash) ⟨1⟩ ⟨7⟩
        (sampleRun tagHash failAtSecondChunk publishedThenFailed) = .ok restored s' ∧
      restored.bytes = [0, 1, 0] := by
  have hrun := run_calls (sampleEnv tagHash) MemoryWorld.view.Same
    (sampleSystem tagHash failAtSecondChunk) publishedThenFailed
  have hpublished : .call (.publish (sampleDescriptor 7 1 3) [0, 1, 0]) none ∈
      callEvents (sampleEnv tagHash) (sampleSystem tagHash failAtSecondChunk)
        publishedThenFailed :=
    mem_call_events [.createFamily] rfl (by decide +kernel)
  obtain ⟨rec, hfind, hrestores⟩ := live_checkpoint_restores (memory_backend_lawful tagHash)
    (memory_backend_serves tagHash) (fun _ _ => sample_backends tagHash) hrun
    (by decide +kernel) (by decide +kernel) (by decide +kernel) (by decide +kernel) hpublished
    (by decide +kernel) ⟨1⟩
  refine hrestores fun hdeleted => ?_
  have hlifecycle : ((sampleRun tagHash failAtSecondChunk
      publishedThenFailed).store.checkpoints.find
      (sampleDescriptor 7 1 3).id).map CheckpointRecord.lifecycle = some .committed := by
    decide +kernel
  rw [sampleRun, hfind, Option.map_some, hdeleted] at hlifecycle
  simp at hlifecycle

/-! ## Why the identities matter -/

/-- A failed publication, `n` drawn identities and another publication. For the right `n` the
counter comes round to the placements that the failed publication left behind. -/
def wrappingCalls (n : Nat) : List (Op MemoryWorld) :=
  [.createFamily, .publish (sampleDescriptor 7 1 2) [0, 0]] ++
    List.replicate n (.makeFullDescriptor ⟨1⟩ ⟨1⟩ 0 .local) ++
    [.publish (sampleDescriptor 8 1 1) [0]]

/-- The state before the last of these calls; the first read of the failed publication throws. -/
def wrappedState (n : Nat) : System MemoryWorld :=
  let s := sampleRun sha256Hash [false, false, true]
    [.createFamily, .publish (sampleDescriptor 7 1 2) [0, 0]]
  { s with
    ticks := s.ticks + n
    idsDrawn := s.idsDrawn + n
    store := { s.store with nextIdCounter := s.store.nextIdCounter + UInt64.ofNat n } }

theorem call_all_before_last (n : Nat) :
    callAll (sampleEnv sha256Hash) (sampleSystem sha256Hash [false, false, true])
        ([.createFamily, .publish (sampleDescriptor 7 1 2) [0, 0]] ++
          List.replicate n (.makeFullDescriptor ⟨1⟩ ⟨1⟩ 0 .local)) = wrappedState n := by
  have hnext : (callAll (sampleEnv sha256Hash) (sampleSystem sha256Hash [false, false, true])
      [.createFamily, .publish (sampleDescriptor 7 1 2) [0, 0]]).store.nextCheckpointGeneration.find
      ⟨1⟩ = some ⟨1⟩ := by decide +kernel
  rw [call_all_append, call_all_make_full_descriptor _ hnext, wrappedState, sampleRun]

theorem call_all_wrapping (n : Nat) :
    callAll (sampleEnv sha256Hash) (sampleSystem sha256Hash [false, false, true])
        (wrappingCalls n) =
      finalState ((Op.publish (sampleDescriptor 8 1 1) [0]).run (sampleEnv sha256Hash)
        (wrappedState n)) := by
  rw [wrappingCalls, call_all_append, call_all_before_last, call_all_singleton]

/-- The events of these calls publish nothing but the content `[0]`. -/
theorem wrapping_events {n : Nat} {e : Event MemoryWorld}
    (he : e ∈ callEvents (sampleEnv sha256Hash) (sampleSystem sha256Hash [false, false, true])
      (wrappingCalls n)) :
    (e.reopens = false ∧ e.Sized) ∧ ∀ x ∈ e.contents sha256Hash 1, x = [0] := by
  obtain ⟨op, hop, outcome, rfl⟩ := op_of_mem_call_events he
  simp only [wrappingCalls, List.mem_append, List.mem_cons, List.not_mem_nil, or_false,
    List.mem_replicate] at hop
  rcases hop with ((rfl | rfl) | ⟨_, rfl⟩) | rfl
  · exact ⟨⟨rfl, by simp [Event.Sized, Event.publication]⟩,
      by simp [Event.contents, Event.publication]⟩
  · refine ⟨⟨rfl, fun published h => ?_⟩, fun x hx => ?_⟩
    · cases h
      exact ⟨by decide, rfl⟩
    · have hx' : x ∈ [[0], [0]] := hx
      simpa using hx'
  · exact ⟨⟨rfl, by simp [Event.Sized, Event.publication]⟩,
      by simp [Event.contents, Event.publication]⟩
  · refine ⟨⟨rfl, fun published h => ?_⟩, fun x hx => ?_⟩
    · cases h
      exact ⟨by decide, rfl⟩
    · have hx' : x ∈ [[0]] := hx
      simpa using hx'

/-- A hash whose digests of `[0]` and `[1]` start with the 64-bit words 0 and 1. -/
def sentinelHash : StreamHash := .ofFunction fun data =>
  if data = [0] then .zero
  else if data = [1] then ⟨List.replicate 7 0 ++ [1] ++ List.replicate 24 0, rfl⟩
  else tagHash.sha256 data

/-- Without a bound on the drawn identities, or with contents that only differ in the first
eight bytes of their digests, a published and undeleted checkpoint can fail to restore: a new
chunk is given the placement of another publication, or two chunks share an identity because the
word 0 is read as 1. -/
theorem restore_fails_without_fresh_identities :
    (∃ events s, Run (Step (sampleEnv sha256Hash) MemoryWorld.view.Same)
        (sampleSystem sha256Hash [false, false, true]) events s ∧
      (∀ e ∈ events, e.reopens = false ∧ e.Sized) ∧
      (∀ x ∈ contentsOf sha256Hash 1 events, ∀ y ∈ contentsOf sha256Hash 1 events,
        leadingWord (sha256Hash.sha256 x) = leadingWord (sha256Hash.sha256 y) → x = y) ∧
      s.world.faults = [] ∧ .call (.publish (sampleDescriptor 8 1 1) [0]) none ∈ events ∧
      (s.store.checkpoints.find ⟨8⟩).map CheckpointRecord.lifecycle = some .committed ∧
      thrown (restore (sampleEnv sha256Hash) ⟨1⟩ ⟨8⟩ s) ≠ none) ∧
    (∃ events s, Run (Step (sampleEnv sentinelHash) MemoryWorld.view.Same)
        (sampleSystem sentinelHash []) events s ∧
      (∀ e ∈ events, e.reopens = false ∧ e.Sized) ∧
      (∀ x ∈ contentsOf sentinelHash 1 events, ∀ y ∈ contentsOf sentinelHash 1 events,
        leadingWord (sentinelHash.sha256 x) = leadingWord (sentinelHash.sha256 y) → x = y) ∧
      s.world.faults = [] ∧ 1000 + s.idsDrawn ≤ 2 ^ 64 ∧
      .call (.publish (sampleDescriptor 7 1 2) [0, 1]) none ∈ events ∧
      (s.store.checkpoints.find ⟨7⟩).map CheckpointRecord.lifecycle = some .committed ∧
      thrown (restore (sampleEnv sentinelHash) ⟨1⟩ ⟨7⟩ s) ≠ none) := by
  refine ⟨⟨_, _, run_calls _ _ _ (wrappingCalls (2 ^ 64 - 2)), ?_⟩, ⟨_, _, run_calls _ _ _
    [.createFamily, .publish (sampleDescriptor 7 1 2) [0, 1]], ?_⟩⟩
  · have hlast : thrown ((Op.publish (sampleDescriptor 8 1 1) [0]).run (sampleEnv sha256Hash)
        (wrappedState (2 ^ 64 - 2))) = none ∧
        (let s := finalState ((Op.publish (sampleDescriptor 8 1 1) [0]).run
          (sampleEnv sha256Hash) (wrappedState (2 ^ 64 - 2)))
        s.world.faults = [] ∧
          (s.store.checkpoints.find ⟨8⟩).map CheckpointRecord.lifecycle = some .committed ∧
          thrown (restore (sampleEnv sha256Hash) ⟨1⟩ ⟨8⟩ s) ≠ none) := by
      decide +kernel
    generalize 2 ^ 64 - 2 = n at hlast ⊢
    rw [call_all_wrapping]
    refine ⟨fun e he => (wrapping_events he).1, fun x hx y hy _ => ?_, hlast.2.1, ?_, hlast.2.2⟩
    · obtain ⟨e, he, hx⟩ := List.mem_flatMap.mp hx
      obtain ⟨e', he', hy⟩ := List.mem_flatMap.mp hy
      rw [(wrapping_events he).2 x hx, (wrapping_events he').2 y hy]
    · refine mem_call_events _ rfl ?_
      rw [call_all_before_last]
      exact hlast.1
  · refine ⟨by decide +kernel, by decide +kernel, by decide +kernel, by decide +kernel, ?_,
      by decide +kernel, by decide +kernel⟩
    exact mem_call_events [.createFamily] rfl (by decide +kernel)

end CheckpointStore
