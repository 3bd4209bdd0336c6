import CheckpointStore.Safety.Restorable

/-!
# Verification and restore agree

`verify_checkpoint` walks the chunks of a record, `restore` the entries of its manifest; the one
asks the backend of the replica set, the other those of the placements. `Located` says that both
walks lead to the same objects, and every step but a restart keeps it. Over a backend that answers
by what it stores, the one finds the record verified exactly if it is `Whole`, the other returns
exactly if it is `Restorable`; `verified_iff_restored` says when these agree.
-/

namespace CheckpointStore

open Foundation Foundation.Procedure Foundation.UnorderedMap

variable {W : Type}

/-! ## What both walks read -/

/-- The object of a chunk is there and hashes to its digest. -/
def Holds (H : StreamHash) (view : ObjectView W) (w : W) (cd : ChunkDescriptor) (x : Bytes) :
    Prop :=
  view.objects w (blobKey cd.digest) = some x ∧ H.sha256 x = cd.digest

/-- Which contents are held for chunks depends on the digests only. -/
theorem forall₂_holds {H : StreamHash} {view : ObjectView W} {w : W}
    {chunks : List ChunkDescriptor} {xs : List Bytes} :
    List.Forall₂ (Holds H view w) chunks xs ↔
      List.Forall₂ (fun d x => view.objects w (blobKey d) = some x ∧ H.sha256 x = d)
        (chunks.map ChunkDescriptor.digest) xs := by
  rw [List.forall₂_map_left_iff]
  rfl

/-- All chunks are there, and together they are what was published. -/
def Whole (H : StreamHash) (view : ObjectView W) (w : W) (rec : CheckpointRecord) : Prop :=
  ∃ xs, List.Forall₂ (Holds H view w) rec.chunks xs ∧
    H.sha256 xs.flatten = rec.manifest.checkpointDigest

/-- The chunk that a restore reads in place of a chunk: the first one with its identity. -/
def CheckpointRecord.firstChunk (rec : CheckpointRecord) (cd : ChunkDescriptor) :
    ChunkDescriptor :=
  (rec.chunks.find? fun c => c.id = cd.id).getD cd

theorem CheckpointRecord.find_first_chunk (rec : CheckpointRecord) {cd : ChunkDescriptor}
    (hcd : cd ∈ rec.chunks) :
    rec.chunks.find? (fun c => c.id = cd.id) = some (rec.firstChunk cd) :=
  find_of_mem hcd (by simp)

/-- The chunks that a restore reads are there, together they are what was published, and memory has
room for them and for the declared size. -/
def Restorable (H : StreamHash) (view : ObjectView W) (w : W) (limit : Nat)
    (rec : CheckpointRecord) : Prop :=
  ∃ xs, List.Forall₂ (Holds H view w) (rec.chunks.map rec.firstChunk) xs ∧
    H.sha256 xs.flatten = rec.manifest.checkpointDigest ∧
    rec.descriptor.logicalSize.toNat ≤ limit ∧ xs.flatten.length ≤ limit

section Walks

variable {env : Env} {b : IBackend W} {view : ObjectView W} {healthy : W → Prop} {s : System W}

theorem holds_same {w w' : W} (h : view.Same w w') :
    Holds env.hash view w' = Holds env.hash view w := by
  unfold Holds
  rw [h]

/-- The chunks determine the contents. -/
theorem contents_unique {w : W} {chunks : List ChunkDescriptor} {xs ys : List Bytes}
    (hxs : List.Forall₂ (Holds env.hash view w) chunks xs)
    (hys : List.Forall₂ (Holds env.hash view w) chunks ys) : xs = ys := by
  induction hxs generalizing ys with
  | nil =>
      cases hys
      rfl
  | cons hx _ ih =>
      cases hys with
      | cons hy hrest => rw [Option.some.inj (hx.1.symm.trans hy.1), ih hrest]

theorem not_contents_cons {w : W} {cd : ChunkDescriptor} {rest : List ChunkDescriptor}
    (h : ¬ ∃ x, Holds env.hash view w cd x) :
    ¬ ∃ xs, List.Forall₂ (Holds env.hash view w) (cd :: rest) xs := by
  rintro ⟨_, hxs⟩
  cases hxs with
  | cons hx _ => exact h ⟨_, hx⟩

theorem not_holds_of_absent {w : W} {cd : ChunkDescriptor}
    (hobject : view.objects w (blobKey cd.digest) = none) : ¬ ∃ x, Holds env.hash view w cd x := by
  rintro ⟨x, hx, _⟩
  rw [hobject] at hx
  cases hx

theorem not_holds_of_other {w : W} {cd : ChunkDescriptor} {x : Bytes}
    (hobject : view.objects w (blobKey cd.digest) = some x)
    (hhash : env.hash.sha256 x ≠ cd.digest) : ¬ ∃ x, Holds env.hash view w cd x := by
  rintro ⟨y, hy, hhash'⟩
  rw [hobject] at hy
  exact hhash (Option.some.inj hy ▸ hhash')

/-- The other chunks decide if the first one is held. -/
theorem contents_cons {w : W} {cd : ChunkDescriptor} {x : Bytes} {rest : List ChunkDescriptor}
    (hx : Holds env.hash view w cd x) :
    (∃ xs, List.Forall₂ (Holds env.hash view w) (cd :: rest) xs) ↔
      ∃ xs, List.Forall₂ (Holds env.hash view w) rest xs := by
  constructor
  · rintro ⟨_, hxs⟩
    cases hxs with
    | cons _ hrest => exact ⟨_, hrest⟩
  · rintro ⟨xs, hrest⟩
    exact ⟨x :: xs, .cons hx hrest⟩

/-! ## Verification -/

/-- The loop of a verification reads the contents, or finds that there are none. -/
theorem post_verify_chunks (hb : b.Truthful env.hash view healthy) (chunks : List ChunkDescriptor)
    (combined : env.hash.State) (hs : healthy s.world) :
    Post (verifyChunks env b chunks combined) s
      (fun verdict _ => match verdict with
        | .inl integrity => integrity ≠ .verified ∧
            ¬ ∃ xs, List.Forall₂ (Holds env.hash view s.world) chunks xs
        | .inr combined' => ∃ xs, List.Forall₂ (Holds env.hash view s.world) chunks xs ∧
            combined' = xs.foldl env.hash.update combined)
      (fun _ _ => False) := by
  induction chunks generalizing s combined with
  | nil => exact ⟨[], .nil, rfl⟩
  | cons cd rest ih =>
      simp only [verifyChunks, post_bind, post_call_backend]
      refine (hb.exists_key _ _ hs).mono (fun present w hw => ?_) (fun _ _ h => h)
      obtain ⟨hpresent, hsame, hw⟩ := hw
      cases hobject : view.objects s.world (blobKey cd.digest) with
      | none =>
          obtain rfl : present = false := by rw [hpresent, hobject]; rfl
          rw [if_pos rfl]
          exact ⟨by simp, not_contents_cons (not_holds_of_absent hobject)⟩
      | some x =>
          rw [hobject] at hpresent
          simp only [hpresent, Option.isSome_some, Bool.true_eq_false, if_false, post_bind,
            post_verify_object]
          refine (hb.verify _ _ _ hw).mono (fun answer w₁ hw₁ => ?_) (fun _ _ h => h)
          obtain ⟨rfl, hsame₁, hw₁⟩ := hw₁
          have hsame₁ := hsame.trans hsame₁
          rw [hsame, hobject, StreamHash.judge]
          by_cases hhash : env.hash.sha256 x = cd.digest
          · rw [if_pos hhash]
            simp only [reduceCtorEq, or_self, if_false, post_bind, post_call_backend]
            refine (hb.read _ x _ hw₁ (by rw [hsame₁]; exact hobject)).mono
              (fun rb w₂ hw₂ => ?_) (fun _ _ h => h)
            obtain ⟨rfl, hsame₂, hw₂⟩ := hw₂
            have hholds : Holds env.hash view s.world cd rb := ⟨hobject, hhash⟩
            refine (ih _ hw₂).mono (fun verdict _ hverdict => ?_) (fun _ _ h => h)
            cases verdict with
            | inl integrity =>
                rw [contents_cons hholds]
                rw [holds_same (hsame₁.trans hsame₂)] at hverdict
                exact hverdict
            | inr combined' =>
                obtain ⟨xs, hxs, hcombined⟩ := hverdict
                rw [holds_same (hsame₁.trans hsame₂)] at hxs
                exact ⟨rb :: xs, .cons hholds hxs, hcombined⟩
          · rw [if_neg hhash]
            simp only [true_or, if_true, post_pure]
            exact ⟨by simp, not_contents_cons (not_holds_of_other hobject hhash)⟩

/-- A verification finds a whole record verified, and no other. -/
theorem post_verify_checkpoint (hb : b.Truthful env.hash view healthy) {id : CheckpointId}
    {rec : CheckpointRecord} (hfind : s.store.checkpoints.find id = some rec)
    (hpick : pickUnderlay s.store rec.replicaSet.replicas none = some b) (hs : healthy s.world) :
    Post (verifyCheckpoint env id) s
      (fun integrity _ => integrity = .verified ↔ Whole env.hash view s.world rec)
      (fun _ _ => False) := by
  simp only [verifyCheckpoint, post_bind, post_get, hfind, hpick]
  refine (post_verify_chunks hb rec.chunks _ hs).mono (fun verdict s' hverdict => ?_)
    (fun _ _ h => h)
  cases verdict with
  | inl integrity =>
      obtain ⟨hintegrity, hnone⟩ := hverdict
      simp only [condemn, post_bind, post_modify_store, post_pure]
      constructor
      · intro h
        exact absurd h hintegrity
      · rintro ⟨xs, hxs, _⟩
        exact absurd ⟨xs, hxs⟩ hnone
  | inr combined =>
      obtain ⟨xs, hxs, rfl⟩ := hverdict
      have hfinal : env.hash.final (xs.foldl env.hash.update env.hash.init) =
          env.hash.sha256 xs.flatten := env.hash.final_foldl xs
      simp only [hfinal, post_ite, condemn, post_bind, post_modify_store, post_pure]
      refine ⟨fun hne => ⟨fun h => by simp at h, ?_⟩,
        fun heq => ⟨fun _ => ⟨xs, hxs, not_not.mp heq⟩, fun _ => trivial⟩⟩
      rintro ⟨ys, hys, hdigest⟩
      exact absurd (contents_unique hxs hys ▸ hdigest) hne

/-! ## Restoring -/

/-- The only candidate for a chunk answers with its content, or there is none. -/
theorem post_restore_chunk_truthful (hb : b.Truthful env.hash view healthy) {id : CheckpointId}
    {cd : ChunkDescriptor} {rid : ReplicaId} {rd : ReplicaDescriptor} (evidence : RestoreEvidence)
    (hreplica : s.store.replicas.find rid = some rd)
    (hbackend : s.store.backends.find rd.backendId = some b) (hs : healthy s.world) :
    Post (restoreChunk env id cd [rid] evidence) s
      (fun found s' => match found.1 with
        | none => ¬ ∃ x, Holds env.hash view s.world cd x
        | some x => Holds env.hash view s.world cd x ∧ Undisturbed view healthy s s')
      (fun _ _ => False) := by
  by_cases hheld : ∃ x, Holds env.hash view s.world cd x
  · obtain ⟨x, hx⟩ := hheld
    refine (post_restore_chunk hb.toServes hreplica hbackend hx.1 hx.2 hs).mono
      (fun found s' hfound => ?_) (fun _ _ h => h)
    rw [hfound.1]
    exact ⟨hx, hfound.2⟩
  · simp only [restoreChunk, post_bind, post_get, hreplica, hbackend, post_call_backend]
    refine (hb.health _ hs).mono (fun up w hw => ?_) (fun _ _ h => h)
    obtain ⟨rfl, hsame, hw⟩ := hw
    simp only [Bool.true_eq_false, if_false, post_bind, readSource, post_try_catch,
      post_call_backend, post_pure]
    cases hobject : view.objects s.world (blobKey cd.digest) with
    | none =>
        refine (hb.read_absent _ _ hw (by rw [hsame]; exact hobject)).mono
          (fun _ _ h => h.elim) (fun e _ he => ?_)
        cases e with
        | error code message => exact hheld
        | foreign => exact absurd rfl he
    | some x =>
        refine (hb.read _ x _ hw (by rw [hsame]; exact hobject)).mono (fun rb w' hw' => ?_)
          (fun _ _ h => h.elim)
        obtain ⟨rfl, _, _⟩ := hw'
        have hhash : env.hash.sha256 rb ≠ cd.digest := fun hhash => hheld ⟨rb, hobject, hhash⟩
        simp only [hhash, if_false, post_bind, post_modify_store, post_pure]
        exact hheld

theorem forall₂_comp {α β γ : Type} {R : α → β → Prop} {S : β → γ → Prop} {T : α → γ → Prop}
    (h : ∀ a c x, R a c → S c x → T a x) {l : List α} {u : List β} {v : List γ}
    (hR : List.Forall₂ R l u) (hS : List.Forall₂ S u v) : List.Forall₂ T l v := by
  induction hR generalizing v with
  | nil =>
      cases hS
      exact .nil
  | cons hac _ ih =>
      cases hS with
      | cons hcx hrest => exact .cons (h _ _ _ hac hcx) (ih hrest)

/-- A manifest entry leads to the chunk `cd`, on the backend `b`. -/
structure Sourced (b : IBackend W) (rec : CheckpointRecord) (s : System W) (entry : ManifestEntry)
    (cd : ChunkDescriptor) : Prop where
  chunk : rec.chunks.find? (fun cd => cd.id = entry.chunkId) = some cd
  source : ∃ rid rd, candidates s.store rec cd = [rid] ∧
    s.store.replicas.find rid = some rd ∧ s.store.backends.find rd.backendId = some b

/-- The loop of a restore ends only if it finds the contents. -/
theorem post_restore_chunks_truthful (hb : b.Truthful env.hash view healthy) {limit : Nat}
    {id : CheckpointId} {rec : CheckpointRecord} {entries : List ManifestEntry}
    {chunks : List ChunkDescriptor} (progress : RestoreProgress env)
    (hsourced : List.Forall₂ (Sourced b rec s) entries chunks) (hs : healthy s.world) :
    Post (restoreChunks env limit id rec entries progress) s
      (fun _ _ => ∃ xs, List.Forall₂ (Holds env.hash view s.world) chunks xs)
      (fun _ _ => True) := by
  induction entries generalizing chunks s progress with
  | nil =>
      cases hsourced
      exact ⟨[], .nil⟩
  | cons entry rest ih =>
      cases hsourced with
      | @cons _ cd _ chunks hentry hrest =>
          obtain ⟨rid, rd, hcandidates, hreplica, hbackend⟩ := hentry.source
          simp only [restoreChunks, hentry.chunk, post_bind, post_get, hcandidates]
          refine (post_restore_chunk_truthful hb _ hreplica hbackend hs).mono
            (fun found s₁ hfound => ?_) (fun _ _ h => h.elim)
          cases hbytes : found.1 with
          | none => simp only [post_bind, post_modify_store, post_throw_store_error]
          | some rb =>
              simp only [hbytes] at hfound
              obtain ⟨hrb, w, rfl, hsame, hw⟩ := hfound
              simp only [post_ite, post_throw, implies_true, true_and]
              refine fun _ => (ih _ (hrest.imp fun _ _ h => ⟨h.chunk, h.source⟩) hw).mono
                (fun _ _ h => ?_) (fun _ _ h => h)
              rw [holds_same hsame] at h
              exact (contents_cons hrb).mpr h

/-- A restore returns if the chunks it reads are there, have the digest of the manifest and fit
into memory, and otherwise throws. -/
theorem post_restore_truthful (hb : b.Truthful env.hash view healthy) (restoreId : RestoreId)
    {id : CheckpointId} {rec : CheckpointRecord}
    (hfind : s.store.checkpoints.find id = some rec) (hlive : rec.lifecycle ≠ .deleted)
    (heligible : rec.lifecycle ≠ .gcEligible)
    (hsourced : List.Forall₂ (Sourced b rec s) rec.manifest.chunks (rec.chunks.map rec.firstChunk))
    (hs : healthy s.world) :
    Post (restore env restoreId id) s
      (fun _ _ => Restorable env.hash view s.world (env.memory s.ticks) rec)
      (fun _ _ => ¬ Restorable env.hash view s.world (env.memory s.ticks) rec) := by
  by_cases hxs : ∃ xs, List.Forall₂ (Holds env.hash view s.world)
      (rec.chunks.map rec.firstChunk) xs
  · obtain ⟨xs, hxs⟩ := hxs
    have hready : List.Forall₂ (Ready env b view rec s) rec.manifest.chunks xs := by
      refine forall₂_comp (fun entry cd x hentry hx => ?_) hsourced hxs
      obtain ⟨rid, rd, hcandidates, hreplica, hbackend⟩ := hentry.source
      exact ⟨cd, rid, rd, hentry.chunk, hcandidates, hreplica, hbackend, hx⟩
    refine (post_restore hb.toServes restoreId hfind hlive heligible hready hs).mono
      (fun _ _ h => ?_) (fun _ _ h hrestorable => h ?_)
    · obtain ⟨_, hsize, hroom, hdigest⟩ := h
      exact ⟨xs, hxs, hdigest.symm, hsize, hroom⟩
    · obtain ⟨ys, hys, hdigest, hsize, hroom⟩ := hrestorable
      obtain rfl := contents_unique hxs hys
      exact ⟨hsize, hroom, hdigest.symm⟩
  · -- Nothing can be returned without the contents.
    have hnot : ¬ (rec.lifecycle = .gcEligible ∨ rec.lifecycle = .deleted) := by
      rintro (h | h)
      · exact heligible h
      · exact hlive h
    have hnone : ¬ Restorable env.hash view s.world (env.memory s.ticks) rec :=
      fun h => hxs (h.imp fun _ h => h.1)
    simp only [restore, post_bind, post_get, hfind, hnot, if_false, post_ite, post_throw]
    exact ⟨fun _ => hnone, fun _ => (post_restore_chunks_truthful hb _ hsourced hs).mono
      (fun _ _ h => absurd h hxs) (fun _ _ _ => hnone)⟩

end Walks

/-! ## Records lead to their objects -/

/-- A record with the replica `rid`, on a registered backend, in which all its chunks are placed,
and with a manifest that names the chunks in order. -/
structure Located (store : Store W) (rec : CheckpointRecord) (rid : ReplicaId) : Prop where
  lifecycle : rec.lifecycle ≠ .gcEligible
  members : rec.replicaSet.replicas = [rid]
  replica : ∃ rd b, store.replicas.find rid = some rd ∧ store.backends.find rd.backendId = some b
  placed : ∀ cd ∈ rec.chunks, ∃ pid pd, cd.placements = [pid] ∧
    store.placements.find pid = some pd ∧ pd.replicaId = rid
  ids : ∀ cd ∈ rec.chunks, cd.id = chunkIdFromDigest cd.digest
  entries : rec.manifest.chunks.map ManifestEntry.chunkId = rec.chunks.map ChunkDescriptor.id

/-- Every record has a replica that is located. -/
def AllLocated (store : Store W) : Prop :=
  ∀ id rec, store.checkpoints.find id = some rec → ∃ rid, Located store rec rid

/-- The replica is known and its backend registered. -/
def Anchored (store : Store W) (rid : ReplicaId) : Prop :=
  ∃ rd b, store.replicas.find rid = some rd ∧ store.backends.find rd.backendId = some b

/-- A change of the store that keeps replicas and placements, and of a record that keeps its
replica, its manifest and its chunks up to integrity, keeps the record located. -/
theorem Located.transfer {store store' : Store W} {rec rec' : CheckpointRecord} {rid : ReplicaId}
    (h : Located store rec rid) (hreplica : Anchored store rid → Anchored store' rid)
    (hplacements : ∀ pid pd, store.placements.find pid = some pd →
      store'.placements.find pid = some pd)
    (hlifecycle : rec'.lifecycle ≠ .gcEligible)
    (hmembers : rec'.replicaSet.replicas = rec.replicaSet.replicas)
    (hmanifest : rec'.manifest = rec.manifest)
    (hchunks : rec'.chunks.map ChunkDescriptor.content = rec.chunks.map ChunkDescriptor.content) :
    Located store' rec' rid := by
  have hsource : ∀ cd' ∈ rec'.chunks, ∃ cd ∈ rec.chunks, cd.content = cd'.content := by
    intro cd' hcd'
    have hin : cd'.content ∈ rec.chunks.map ChunkDescriptor.content := by
      rw [← hchunks]
      exact List.mem_map_of_mem hcd'
    exact List.mem_map.mp hin
  refine ⟨hlifecycle, hmembers.trans h.members, hreplica h.replica, fun cd' hcd' => ?_,
    fun cd' hcd' => ?_, ?_⟩
  · obtain ⟨cd, hcd, hcontent⟩ := hsource cd' hcd'
    obtain ⟨pid, pd, hpid, hpd, hrid⟩ := h.placed cd hcd
    have hsame : cd.content.placements = cd'.content.placements := by rw [hcontent]
    exact ⟨pid, pd, hsame.symm.trans hpid, hplacements pid pd hpd, hrid⟩
  · obtain ⟨cd, hcd, hcontent⟩ := hsource cd' hcd'
    have hid : cd.content.id = cd'.content.id := by rw [hcontent]
    have hdigest : cd.content.digest = cd'.content.digest := by rw [hcontent]
    exact hid.symm.trans ((h.ids cd hcd).trans (congrArg chunkIdFromDigest hdigest))
  · have hids : ∀ chunks : List ChunkDescriptor, chunks.map ChunkDescriptor.id =
        (chunks.map ChunkDescriptor.content).map ChunkDescriptor.id := by
      intro chunks
      rw [List.map_map]
      rfl
    rw [hmanifest, h.entries, hids rec.chunks, hids rec'.chunks, hchunks]

/-! ## Every step -/

theorem anchored_quiet {R : W → W → Prop} {s s' : System W} (h : SameContent R s s')
    {rid : ReplicaId} (hrid : Anchored s.store rid) : Anchored s'.store rid := by
  obtain ⟨rd, b, hreplica, hbackend⟩ := hrid
  have hcontent := h.replicas rid
  rw [hreplica] at hcontent
  obtain ⟨rd', hreplica', hrd'⟩ := Option.map_eq_some_iff.mp hcontent
  have hbackendId : rd'.content.backendId = rd.content.backendId := by rw [hrd']
  exact ⟨rd', b, hreplica', by rw [h.backends]; exact hbackendId ▸ hbackend⟩

/-- A quiet change keeps it so. -/
theorem all_located_quiet {R : W → W → Prop} {s s' : System W} (h : SameContent R s s')
    (hs : AllLocated s.store) : AllLocated s'.store := by
  intro id rec' hfind'
  have hcontent := h.checkpoints id
  rw [hfind', Option.map_some, eq_comm] at hcontent
  obtain ⟨rec, hfind, hrec⟩ := Option.map_eq_some_iff.mp hcontent
  obtain ⟨rid, hlocated⟩ := hs id rec hfind
  have hlifecycle : rec.lifecycle.content = rec'.lifecycle.content :=
    congrArg CheckpointRecord.lifecycle hrec
  refine ⟨rid, hlocated.transfer (anchored_quiet h)
    (fun pid pd hpd => (h.placements pid).trans hpd) ?_ ?_ ?_ ?_⟩
  · exact CheckpointLifecycle.content_eligible hlifecycle.symm hlocated.lifecycle
  · exact (congrArg (fun rec => rec.replicaSet.replicas) hrec :
      rec.content.replicaSet.replicas = rec'.content.replicaSet.replicas).symm
  · exact (congrArg CheckpointRecord.manifest hrec : rec.content.manifest = _).symm
  · exact (congrArg CheckpointRecord.chunks hrec : rec.content.chunks = _).symm

/-- A publication enters a located record, unless the identity counter has wrapped around. -/
theorem Published.all_located {env : Env} {descriptor : CheckpointDescriptor} {data : Bytes}
    {s s' : System W} (h : Published env descriptor data s s') (hnumbered : Numbered s)
    (hroom : 1000 + s'.idsDrawn ≤ 2 ^ 64) (hlength : data.length < 2 ^ 64)
    (hs : AllLocated s.store) : AllLocated s'.store := by
  obtain ⟨_, hbackends, _⟩ := h.store_eq
  cases h with
  | @intro underlay slices p w hadmitted hslices hrounds _ _ =>
      have hroom' : 1000 + p.system.idsDrawn + 1 ≤ 2 ^ 64 := hroom
      obtain ⟨hrecording, hfresh⟩ := hrounds.recording hnumbered hroom'
      intro id rec hfind
      rcases hrounds.published_cases hadmitted.fresh hfind with rfl | hold
      · refine ⟨p.locals.replicaId, ⟨by simp [publishedRecord, newRecord], rfl, ?_, ?_, ?_, ?_⟩⟩
        · refine ⟨_, underlay, hrounds.find_new_replica env descriptor data hfresh, ?_⟩
          rw [hbackends]
          exact hadmitted.backend
        · intro cd hcd
          obtain ⟨slice, _, hrecorded⟩ := exists_of_mem_left hrecording.chunks.flip hcd
          exact hrecorded.placed
        · intro cd hcd
          obtain ⟨slice, _, hrecorded⟩ := exists_of_mem_left hrecording.chunks.flip hcd
          rw [hrecorded.id, hrecorded.digest]
        · show (sortedEntries p.locals).map ManifestEntry.chunkId = _
          rw [sorted_entries_of_slices hrecording.entries hslices hlength, hrecording.entries,
            List.map_map, ← List.forall₂_eq_eq_eq, List.forall₂_map_left_iff,
            List.forall₂_map_right_iff]
          exact hrecording.chunks.imp fun _ _ hrecorded => hrecorded.id.symm
      · obtain ⟨rid, hlocated⟩ := hs id rec hold
        refine ⟨rid, hlocated.transfer ?_ (fun pid pd hpd => hrounds.find_placement hpd)
          hlocated.lifecycle rfl rfl rfl⟩
        rintro ⟨rd, b, hreplica, hbackend⟩
        refine ⟨rd, b, hrounds.find_old_replica env descriptor data hreplica, ?_⟩
        rw [hbackends]
        exact hbackend

/-- Every step but a restart keeps all records located, before identities run out. -/
theorem Transition.all_located {env : Env} {R : W → W → Prop} {s s' : System W} {e : Event W}
    (h : Transition env R s e s') (hreopens : e.reopens = false)
    (hlength : ∀ published ∈ e.publication, published.2.length < 2 ^ 64) (hnumbered : Numbered s)
    (hroom : 1000 + s'.idsDrawn ≤ 2 ^ 64) (hs : AllLocated s.store) : AllLocated s'.store := by
  cases h with
  | quiet _ h => exact all_located_quiet h hs
  | published h => exact h.all_located hnumbered hroom (hlength _ rfl) hs
  | publishFailed h =>
      obtain ⟨_, _, _, _, _, hstore⟩ := h.store_eq
      intro id rec hfind
      rw [hstore] at hfind
      obtain ⟨rid, hlocated⟩ := hs id rec hfind
      refine ⟨rid, hlocated.transfer (fun hrid => by rw [hstore]; exact hrid) (fun pid pd hpd => ?_)
        hlocated.lifecycle rfl rfl rfl⟩
      cases h with
      | rejected => exact hpd
      | interrupted _ _ hrounds hstopped _ =>
          obtain ⟨c, hstore⟩ := hstopped.store_eq
          simp only [System.rolledBack, hstore]
          exact hrounds.find_placement hpd
  | gcRan h =>
      obtain ⟨_, _, _, _, _, hstore⟩ := h.store_eq
      intro id rec' hfind'
      have hsame : ∀ {rec}, s.store.checkpoints.find id = some rec →
          rec'.lifecycle ≠ .gcEligible → rec'.replicaSet.replicas = rec.replicaSet.replicas →
          rec'.manifest = rec.manifest → rec'.chunks = rec.chunks →
          ∃ rid, Located s'.store rec' rid := by
        intro rec hfind hlifecycle hmembers hmanifest hchunks
        obtain ⟨rid, hlocated⟩ := hs id rec hfind
        exact ⟨rid, hlocated.transfer (fun hrid => by rw [hstore]; exact hrid)
          (fun pid pd hpd => by rw [hstore]; exact hpd) hlifecycle hmembers hmanifest
          (by rw [hchunks])⟩
      obtain ⟨rec, hfind, rfl | rfl⟩ := h.record_cases hfind'
      · obtain ⟨_, hlocated⟩ := hs id rec' hfind
        exact hsame hfind hlocated.lifecycle rfl rfl rfl
      · exact hsame hfind (by simp) rfl rfl rfl
  | reopened => simp [Event.reopens] at hreopens

/-! ## Runs -/

section Located

variable {s : System W} {rec : CheckpointRecord} {rid : ReplicaId} {b : IBackend W}

/-- The backend of the located replica is picked. -/
theorem Located.pick_underlay (h : Located s.store rec rid)
    (hbackends : ∀ id b', s.store.backends.find id = some b' → b' = b) :
    pickUnderlay s.store rec.replicaSet.replicas none = some b := by
  obtain ⟨rd, b', hreplica, hbackend⟩ := h.replica
  obtain rfl := hbackends _ _ hbackend
  simp [h.members, pickUnderlay, hreplica, hbackend]

/-- The entries of the manifest lead to the first chunks with their identities. -/
theorem Located.sourced (h : Located s.store rec rid)
    (hbackends : ∀ id b', s.store.backends.find id = some b' → b' = b) :
    List.Forall₂ (Sourced b rec s) rec.manifest.chunks (rec.chunks.map rec.firstChunk) := by
  rw [List.forall₂_map_right_iff]
  refine (forall₂_of_map_eq h.entries).imp fun entry cd hpair => ?_
  obtain ⟨_, hcd, hentry⟩ := hpair
  have hfirst := rec.find_first_chunk hcd
  obtain ⟨pid, pd, hpid, hpd, hplaced⟩ := h.placed _ (List.mem_of_find?_eq_some hfirst)
  obtain ⟨rd, b', hreplica, hbackend⟩ := h.replica
  obtain rfl := hbackends _ _ hbackend
  refine ⟨by rw [hentry]; exact hfirst, rid, rd, ?_, hreplica, hbackend⟩
  rw [candidates_of_resolves hpid hpd, hplaced]

/-- If different chunks have different identities, every chunk is the first one with its own, up to
the digest. -/
theorem Located.holds_first (h : Located s.store rec rid)
    (hdistinct : ∀ cd ∈ rec.chunks, ∀ cd' ∈ rec.chunks,
      chunkIdFromDigest cd.digest = chunkIdFromDigest cd'.digest → cd.digest = cd'.digest)
    {H : StreamHash} {view : ObjectView W} {w : W} {xs : List Bytes} :
    List.Forall₂ (Holds H view w) (rec.chunks.map rec.firstChunk) xs ↔
      List.Forall₂ (Holds H view w) rec.chunks xs := by
  have hsame : (rec.chunks.map rec.firstChunk).map ChunkDescriptor.digest =
      rec.chunks.map ChunkDescriptor.digest := by
    rw [List.map_map]
    refine List.map_congr_left fun cd hcd => ?_
    have hfirst := rec.find_first_chunk hcd
    have hin := List.mem_of_find?_eq_some hfirst
    have hid : (rec.firstChunk cd).id = cd.id := by simpa using List.find?_some hfirst
    exact hdistinct _ hin _ hcd (by rw [← h.ids _ hin, ← h.ids _ hcd, hid])
  rw [forall₂_holds, forall₂_holds, hsame]

end Located

/-- When verification and restore agree. In any state that a fresh store with one registered backend
reaches without a restart before its identities run out, whatever happened to the backend: if the
backend answers by what it stores, an undeleted checkpoint is found verified if and only if it can
be restored, exactly when being whole and being restorable come to the same. If different chunks
have different identities, this is to say that memory has room for the declared size and for the
contents of a whole checkpoint. -/
theorem verified_iff_restored {env : Env} {b : IBackend W} {view : ObjectView W}
    {healthy : W → Prop} (hb : b.Truthful env.hash view healthy) {options : StoreOptions}
    {backends : UnorderedMap StorageBackendId (IBackend W)} {w : W}
    (hbackends : ∀ id b', backends.find id = some b' → b' = b) {events : List (Event W)}
    {s : System W} (hrun : Run (Step env Anything) (.fresh options backends w) events s)
    (hevents : ∀ e ∈ events, e.reopens = false ∧
      ∀ published ∈ e.publication, published.2.length < 2 ^ 64)
    (hroom : 1000 + s.idsDrawn ≤ 2 ^ 64) (hhealthy : healthy s.world) {id : CheckpointId}
    {rec : CheckpointRecord} (hfind : s.store.checkpoints.find id = some rec)
    (hlive : rec.lifecycle ≠ .deleted) (restoreId : RestoreId) :
    (((∃ s', verifyCheckpoint env id s = .ok .verified s') ↔
        ∃ restored s', restore env restoreId id s = .ok restored s') ↔
      (Whole env.hash view s.world rec ↔
        Restorable env.hash view s.world (env.memory s.ticks) rec)) ∧
    ((∀ cd ∈ rec.chunks, ∀ cd' ∈ rec.chunks,
        chunkIdFromDigest cd.digest = chunkIdFromDigest cd'.digest → cd.digest = cd'.digest) →
      (((∃ s', verifyCheckpoint env id s = .ok .verified s') ↔
          ∃ restored s', restore env restoreId id s = .ok restored s') ↔
        ∀ xs, List.Forall₂ (Holds env.hash view s.world) rec.chunks xs →
          env.hash.sha256 xs.flatten = rec.manifest.checkpointDigest →
          rec.descriptor.logicalSize.toNat ≤ env.memory s.ticks ∧
            xs.flatten.length ≤ env.memory s.ticks)) := by
  obtain ⟨hnumbered, hlocated, hbackends'⟩ : Numbered s ∧
      (1000 + s.idsDrawn ≤ 2 ^ 64 → AllLocated s.store) ∧
      ∀ id b', s.store.backends.find id = some b' → b' = b := by
    refine Run.invariant_on (A := fun e => e.reopens = false ∧
        ∀ published ∈ e.publication, published.2.length < 2 ^ 64)
      (fun _ s => Numbered s ∧ (1000 + s.idsDrawn ≤ 2 ^ 64 → AllLocated s.store) ∧
        ∀ id b', s.store.backends.find id = some b' → b' = b) ?_ ?_ hrun hevents
    · exact ⟨.fresh, (fun _ _ _ hfind => by cases hfind), hbackends⟩
    · rintro _ s₁ e s₂ _ ⟨hnumbered, hlocated, hbackends⟩ ⟨hreopens, hlength⟩ hstep
      have htransition := step_transition (all_look_anything s₁) hstep
      have hmono := htransition.ids_drawn_le hreopens
      exact ⟨htransition.numbered hreopens hnumbered, fun hroom =>
        htransition.all_located hreopens hlength hnumbered hroom (hlocated (by omega)),
        fun id b' hfind => hbackends id b'
          ((htransition.find_backend hreopens id).symm.trans hfind)⟩
  obtain ⟨rid, hrid⟩ := hlocated hroom id rec hfind
  have hverify := post_verify_checkpoint hb hfind (hrid.pick_underlay hbackends') hhealthy
  have hrestore := post_restore_truthful hb restoreId hfind hlive hrid.lifecycle
    (hrid.sourced hbackends') hhealthy
  have hwhole : (∃ s', verifyCheckpoint env id s = .ok .verified s') ↔
      Whole env.hash view s.world rec := by
    obtain ⟨integrity, s', hverified, hintegrity⟩ := hverify.returns
    refine ⟨fun h => ?_, fun h => ⟨s', by rw [hverified, hintegrity.mpr h]⟩⟩
    obtain ⟨s'', hok⟩ := h
    exact (hverify.of_ok hok).mp rfl
  have hrestorable : (∃ restored s', restore env restoreId id s = .ok restored s') ↔
      Restorable env.hash view s.world (env.memory s.ticks) rec := by
    cases hrun' : restore env restoreId id s with
    | ok restored s₁ => exact ⟨fun _ => hrestore.of_ok hrun', fun _ => ⟨restored, s₁, rfl⟩⟩
    | error e s₁ =>
        refine ⟨fun h => ?_, fun h => absurd h (hrestore.of_error hrun')⟩
        obtain ⟨_, _, h⟩ := h
        cases h
  rw [hwhole, hrestorable]
  refine ⟨Iff.rfl, fun hdistinct => ⟨fun hagree xs hxs hdigest => ?_, fun hfits => ⟨?_, ?_⟩⟩⟩
  · obtain ⟨ys, hys, _, hsize, hroom⟩ := hagree.mp ⟨xs, hxs, hdigest⟩
    rw [contents_unique hxs ((hrid.holds_first hdistinct).mp hys)]
    exact ⟨hsize, hroom⟩
  · rintro ⟨xs, hxs, hdigest⟩
    exact ⟨xs, (hrid.holds_first hdistinct).mpr hxs, hdigest, hfits xs hxs hdigest⟩
  · rintro ⟨xs, hxs, hdigest, _⟩
    exact ⟨xs, (hrid.holds_first hdistinct).mp hxs, hdigest⟩

/-- A published checkpoint is restored. -/
theorem verified_iff_restored_published :
    ∃ restored s', restore (sampleEnv tagHash) ⟨1⟩ ⟨7⟩
      (sampleRun tagHash [] [.createFamily, .publish (sampleDescriptor 7 1 3) [0, 1, 0]]) =
        .ok restored s' := by
  have hb : (memoryBackend tagHash).Truthful (sampleEnv tagHash).hash MemoryWorld.view
      (fun w => w.faults = []) := memory_backend_truthful tagHash
  have hrun : Run (Step (sampleEnv tagHash) Anything) (sampleSystem tagHash [])
      (callEvents (sampleEnv tagHash) (sampleSystem tagHash [])
        [.createFamily, .publish (sampleDescriptor 7 1 3) [0, 1, 0]])
      (sampleRun tagHash [] [.createFamily, .publish (sampleDescriptor 7 1 3) [0, 1, 0]]) :=
    run_calls _ _ _ _
  have hevents : ∀ e ∈ callEvents (sampleEnv tagHash) (sampleSystem tagHash [])
      [.createFamily, .publish (sampleDescriptor 7 1 3) [0, 1, 0]], e.reopens = false ∧
      ∀ published ∈ e.publication, published.2.length < 2 ^ 64 := by
    decide +kernel
  have hreached :
      let s := sampleRun tagHash [] [.createFamily, .publish (sampleDescriptor 7 1 3) [0, 1, 0]]
      1000 + s.idsDrawn ≤ 2 ^ 64 ∧ s.world.faults = [] ∧
        (s.store.checkpoints.find ⟨7⟩).map (fun rec => decide (rec.lifecycle ≠ .deleted ∧
          (∀ cd ∈ rec.chunks, ∀ cd' ∈ rec.chunks, chunkIdFromDigest cd.digest =
            chunkIdFromDigest cd'.digest → cd.digest = cd'.digest) ∧
          rec.chunks.map ChunkDescriptor.digest = [[0], [1], [0]].map tagHash.sha256 ∧
          rec.descriptor.logicalSize.toNat ≤ maxVectorSize)) = some true ∧
        [[0], [1]].map (fun x => s.world.objects.find (blobKey (tagHash.sha256 x))) =
          [[0], [1]].map some ∧
        returned (verifyCheckpoint (sampleEnv tagHash) ⟨7⟩ s) = some .verified := by
    decide +kernel
  generalize sampleRun tagHash [] [.createFamily, .publish (sampleDescriptor 7 1 3) [0, 1, 0]] = s
    at hrun hreached ⊢
  obtain ⟨hroom, hhealthy, hrecord, hobjects, hverified⟩ := hreached
  obtain ⟨rec, hfind, hrec⟩ := Option.map_eq_some_iff.mp hrecord
  obtain ⟨hlive, hdistinct, hdigests, hsize⟩ := of_decide_eq_true hrec
  refine (((verified_iff_restored hb (fun _ _ => sample_backends tagHash) hrun hevents hroom
    hhealthy hfind hlive ⟨1⟩).2 hdistinct).mpr fun xs hxs _ => ⟨hsize, ?_⟩).mp
      (exists_ok_of_returned hverified)
  simp only [List.map_cons, List.map_nil, List.cons.injEq, and_true] at hobjects
  obtain ⟨hzero, hone⟩ := hobjects
  rw [forall₂_holds, hdigests] at hxs
  simp only [List.map_cons, List.map_nil, MemoryWorld.view, hzero, hone, Option.some.injEq,
    List.forall₂_cons_left_iff, List.forall₂_nil_left_iff] at hxs
  obtain ⟨_, _, ⟨rfl, _⟩, ⟨_, _, ⟨rfl, _⟩, ⟨_, _, ⟨rfl, _⟩, rfl, rfl⟩, rfl⟩, rfl⟩ := hxs
  show 3 ≤ maxVectorSize
  decide

/-- A checkpoint is found verified and cannot be restored: because its descriptor declares more
bytes than a vector can hold, or because chunks whose digests start with the words 0 and 1 have
the same identity. -/
theorem verified_but_not_restored :
    (∃ events s, Run (Step (sampleEnv sha256Hash) Anything) (sampleSystem sha256Hash []) events s ∧
      (∀ e ∈ events, e.reopens = false) ∧ s.world.faults = [] ∧
      (s.store.checkpoints.find ⟨7⟩).map CheckpointRecord.lifecycle = some .committed ∧
      (s.store.checkpoints.find ⟨7⟩).map CheckpointRecord.chunks = some [] ∧
      returned (verifyCheckpoint (sampleEnv sha256Hash) ⟨7⟩ s) = some .verified ∧
      thrown (restore (sampleEnv sha256Hash) ⟨1⟩ ⟨7⟩ s) = some .foreign) ∧
    (∃ events s, Run (Step (sampleEnv sentinelHash) Anything) (sampleSystem sentinelHash [])
        events s ∧
      (∀ e ∈ events, e.reopens = false) ∧ s.world.faults = [] ∧
      (s.store.checkpoints.find ⟨7⟩).map CheckpointRecord.lifecycle = some .committed ∧
      (∀ x ∈ [[0], [1]], ∀ y ∈ [[0], [1]], leadingWord (sentinelHash.sha256 x) =
        leadingWord (sentinelHash.sha256 y) → x = y) ∧
      (s.store.checkpoints.find ⟨7⟩).map (fun rec => rec.chunks.map ChunkDescriptor.digest) =
        some [sentinelHash.sha256 [0], sentinelHash.sha256 [1]] ∧
      returned (verifyCheckpoint (sampleEnv sentinelHash) ⟨7⟩ s) = some .verified ∧
      thrown (restore (sampleEnv sentinelHash) ⟨1⟩ ⟨7⟩ s) =
        some (.error .digestMismatch "restored checkpoint digest mismatch")) := by
  constructor
  · have hrun := run_calls (sampleEnv sha256Hash) Anything (sampleSystem sha256Hash [])
      [.createFamily, .publish (sampleDescriptor 7 1 (2 ^ 63)) []]
    have hlarge :
        let s := callAll (sampleEnv sha256Hash) (sampleSystem sha256Hash [])
          [.createFamily, .publish (sampleDescriptor 7 1 (2 ^ 63)) []]
        s.world.faults = [] ∧
          (s.store.checkpoints.find ⟨7⟩).map CheckpointRecord.lifecycle = some .committed ∧
          ((s.store.checkpoints.find ⟨7⟩).map CheckpointRecord.chunks).map List.length = some 0 ∧
          returned (verifyCheckpoint (sampleEnv sha256Hash) ⟨7⟩ s) = some .verified ∧
          thrown (restore (sampleEnv sha256Hash) ⟨1⟩ ⟨7⟩ s) = some .foreign := by
      decide +kernel
    generalize callAll (sampleEnv sha256Hash) (sampleSystem sha256Hash [])
      [.createFamily, .publish (sampleDescriptor 7 1 (2 ^ 63)) []] = s at hrun hlarge
    obtain ⟨hfaults, hlifecycle, hempty, hdiffer⟩ := hlarge
    obtain ⟨chunks, hchunks, hlength⟩ := Option.map_eq_some_iff.mp hempty
    rw [List.length_eq_zero_iff.mp hlength] at hchunks
    exact ⟨_, s, hrun, fun _ => reopens_of_mem_call_events (by decide), hfaults, hlifecycle,
      hchunks, hdiffer⟩
  · exact ⟨_, _, run_calls (sampleEnv sentinelHash) Anything (sampleSystem sentinelHash [])
      [.createFamily, .publish (sampleDescriptor 7 1 2) [0, 1]], by decide +kernel,
      by decide +kernel, by decide +kernel, by decide +kernel, by decide +kernel,
      by decide +kernel, by decide +kernel⟩

end CheckpointStore
