import CheckpointStore.Safety.Stock
import Mathlib.Data.UInt

/-!
# When a restore finds its way

`restore` tries the candidates of each chunk in turn. Here every backend gives consistent answers
during the call (`Consistent`): it is up or not, and a read of a key yields certain bytes or an
error of the store. `post_restore_outcome` says when a restore returns and what, and
`restore_falls_back` that it does so exactly when every chunk has a candidate with the right bytes,
in whatever order its placements are listed. What else `restore` needs is a lifecycle that admits it
and memory for the declared size and for the bytes; the declared size is the caller's
(`declared_size_prevents_restore`).
-/

namespace CheckpointStore

open Foundation Foundation.Procedure Foundation.UnorderedMap

variable {W : Type}

/-! ## What the backends have to offer -/

/-- Whether a backend is up, and what a read of a key yields; `none` is an error of the store. -/
structure BackendAnswers where
  up : StorageBackendId → Bool
  content : StorageBackendId → BackendKey → Option Bytes

/-- In the worlds `calm` the registered backends give these answers, and go on doing so. A backend
that is down is not read. -/
structure Consistent (answers : BackendAnswers) (calm : W → Prop) (store : Store W) : Prop where
  health : ∀ id b, store.backends.find id = some b → ∀ w, calm w →
    Post b.health w (fun up w' => up = answers.up id ∧ calm w') (fun _ _ => False)
  read : ∀ id b, store.backends.find id = some b → answers.up id = true → ∀ key w, calm w →
    Post (b.read key) w (fun rb w' => answers.content id key = some rb ∧ calm w')
      (fun exn w' => answers.content id key = none ∧ exn ≠ .foreign ∧ calm w')

/-- What a replica yields: it is known, and its backend is registered, up and has the object. -/
def BackendAnswers.source (answers : BackendAnswers) (store : Store W) (key : BackendKey)
    (rid : ReplicaId) : Option Bytes :=
  match store.replicas.find rid with
  | none => none
  | some rd =>
      match store.backends.find rd.backendId with
      | none => none
      | some _ => if answers.up rd.backendId then answers.content rd.backendId key else none

/-- The first chunk descriptor with the identity of an entry has a candidate replica that yields
these bytes, and they have the digest of the chunk. -/
def Supplies (H : StreamHash) (answers : BackendAnswers) (store : Store W)
    (rec : CheckpointRecord) (entry : ManifestEntry) (rb : Bytes) : Prop :=
  ∃ cd ∈ rec.chunks.find? (fun cd => cd.id = entry.chunkId), H.sha256 rb = cd.digest ∧
    ∃ rid ∈ candidates store rec cd, answers.source store (blobKey cd.digest) rid = some rb

instance (H : StreamHash) (answers : BackendAnswers) (store : Store W) (rec : CheckpointRecord)
    (entry : ManifestEntry) (rb : Bytes) : Decidable (Supplies H answers store rec entry rb) :=
  inferInstanceAs (Decidable (∃ cd ∈ rec.chunks.find? _, _))

/-- No two candidates of a chunk yield different bytes that both have the digest of the chunk. -/
def CollisionFree (H : StreamHash) (answers : BackendAnswers) (store : Store W)
    (rec : CheckpointRecord) : Prop :=
  ∀ entry x y, Supplies H answers store rec entry x → Supplies H answers store rec entry y → x = y

/-- All entries are supplied, and together they have the digest of the manifest. -/
structure Available (H : StreamHash) (answers : BackendAnswers) (store : Store W)
    (rec : CheckpointRecord) (parts : List Bytes) : Prop where
  entries : List.Forall₂ (Supplies H answers store rec) rec.manifest.chunks parts
  digest : H.sha256 parts.flatten = rec.manifest.checkpointDigest

/-- `restore` starts reading: the lifecycle admits it, and the declared size can be reserved. -/
structure CheckpointRecord.Admits (limit : Nat) (rec : CheckpointRecord) : Prop where
  eligible : rec.lifecycle ≠ .gcEligible
  deleted : rec.lifecycle ≠ .deleted
  size : rec.descriptor.logicalSize.toNat ≤ limit

section Sources

variable {H : StreamHash} {answers : BackendAnswers} {store : Store W} {rec : CheckpointRecord}

/-- An unknown replica supplies nothing. -/
theorem source_of_no_replica {rid : ReplicaId} (h : store.replicas.find rid = none)
    (key : BackendKey) : answers.source store key rid = none := by
  rw [BackendAnswers.source, h]

/-- Nor does a replica without a backend. -/
theorem source_of_no_backend {rid : ReplicaId} {rd : ReplicaDescriptor}
    (h : store.replicas.find rid = some rd) (hbackend : store.backends.find rd.backendId = none)
    (key : BackendKey) : answers.source store key rid = none := by
  rw [BackendAnswers.source, h]
  simp only [hbackend]

/-- A backend supplies what it reads while it is up. -/
theorem source_of_backend {rid : ReplicaId} {rd : ReplicaDescriptor} {b : IBackend W}
    (h : store.replicas.find rid = some rd) (hbackend : store.backends.find rd.backendId = some b)
    (key : BackendKey) :
    answers.source store key rid =
      if answers.up rd.backendId then answers.content rd.backendId key else none := by
  rw [BackendAnswers.source, h]
  simp only [hbackend]

theorem content_of_source {key : BackendKey} {rid : ReplicaId} {rb : Bytes}
    (h : answers.source store key rid = some rb) : ∃ id, answers.content id key = some rb := by
  unfold BackendAnswers.source at h
  split at h
  · cases h
  · split at h
    · cases h
    · split at h
      · exact ⟨_, h⟩
      · cases h

/-- Without collisions the bytes of the entries are determined, whichever candidates have them. -/
theorem supplied_unique (hfree : CollisionFree H answers store rec) {entries : List ManifestEntry}
    {parts parts' : List Bytes} (h : List.Forall₂ (Supplies H answers store rec) entries parts)
    (h' : List.Forall₂ (Supplies H answers store rec) entries parts') : parts = parts' := by
  induction h generalizing parts' with
  | nil =>
      cases h'
      rfl
  | cons hx _ ih =>
      cases h' with
      | cons hy hrest => rw [hfree _ _ _ hx hy, ih hrest]

end Sources

/-! ## The loops -/

section Loops

variable {env : Env} {id : CheckpointId} {answers : BackendAnswers} {calm : W → Prop}
  {s₀ s : System W}

/-- What a restore changes on its way does not affect what it can find. -/
structure Unmoved (calm : W → Prop) (s₀ s : System W) : Prop where
  world : calm s.world
  placements : ∀ pid, s.store.placements.find pid = s₀.store.placements.find pid
  backends : ∀ id, s.store.backends.find id = s₀.store.backends.find id
  replicas : ∀ rid, (s.store.replicas.find rid).map ReplicaDescriptor.backendId =
    (s₀.store.replicas.find rid).map ReplicaDescriptor.backendId

theorem Unmoved.refl {s : System W} (h : calm s.world) : Unmoved calm s s :=
  ⟨h, fun _ => rfl, fun _ => rfl, fun _ => rfl⟩

/-- The candidates stay the same. -/
theorem Unmoved.candidates_eq (h : Unmoved calm s₀ s) (rec : CheckpointRecord)
    (cd : ChunkDescriptor) : candidates s.store rec cd = candidates s₀.store rec cd := by
  simp only [candidates, h.placements]

theorem Unmoved.quarantine (h : Unmoved calm s₀ s) (rid : ReplicaId) (rd : ReplicaDescriptor) :
    Unmoved calm s₀ { s with store := quarantine id rid rd s.store } := by
  unfold CheckpointStore.quarantine
  split
  · refine ⟨h.world, h.placements, h.backends, fun rid' => ?_⟩
    show ((s.store.replicas.modify rid _).find rid').map _ = _
    rw [← h.replicas, find_modify]
    split
    · rw [Option.map_map]
      rfl
    · rfl
  · exact ⟨h.world, h.placements, h.backends, h.replicas⟩

/-- What is found among some candidates: bytes with the right digest, or nothing because none of
them has any. -/
def Found (env : Env) (answers : BackendAnswers) (store : Store W) (cd : ChunkDescriptor)
    (rids : List ReplicaId) : Option Bytes → Prop
  | some rb => env.hash.sha256 rb = cd.digest ∧
      ∃ rid ∈ rids, answers.source store (blobKey cd.digest) rid = some rb
  | none => ∀ rid ∈ rids, ∀ rb, answers.source store (blobKey cd.digest) rid = some rb →
      env.hash.sha256 rb ≠ cd.digest

/-- A candidate without the right bytes is passed over. -/
theorem Found.skip {cd : ChunkDescriptor} {rid : ReplicaId} {rest : List ReplicaId}
    {found : Option Bytes} (h : Found env answers s₀.store cd rest found)
    (hbad : ∀ rb, answers.source s₀.store (blobKey cd.digest) rid = some rb →
      env.hash.sha256 rb ≠ cd.digest) :
    Found env answers s₀.store cd (rid :: rest) found := by
  cases found with
  | none =>
      intro rid' hin
      rcases List.mem_cons.mp hin with rfl | hin
      · exact hbad
      · exact h rid' hin
  | some rb =>
      obtain ⟨hdigest, rid', hin, hsource⟩ := h
      exact ⟨hdigest, rid', List.mem_cons_of_mem _ hin, hsource⟩

/-- The backend of a replica that the current state knows, in terms of the first state. -/
theorem Unmoved.source_eq (h : Unmoved calm s₀ s) (key : BackendKey) (rid : ReplicaId) :
    answers.source s₀.store key rid = answers.source s.store key rid := by
  have hreplicas := h.replicas rid
  unfold BackendAnswers.source
  cases hfind : s.store.replicas.find rid with
  | none =>
      rw [hfind] at hreplicas
      rw [Option.map_eq_none_iff.mp hreplicas.symm]
  | some rd =>
      rw [hfind] at hreplicas
      obtain ⟨rd₀, hfind₀, hbackend⟩ := Option.map_eq_some_iff.mp hreplicas.symm
      rw [hfind₀]
      simp only [hbackend, h.backends]

/-- A read in a calm world: the error of the store is caught. -/
theorem post_read_source (hanswers : Consistent answers calm s₀.store) (h : Unmoved calm s₀ s)
    {bid : StorageBackendId} {b : IBackend W} (hbackend : s₀.store.backends.find bid = some b)
    (hup : answers.up bid = true) (key : BackendKey) :
    Post (readSource b key) s
      (fun attempt s' => attempt = answers.content bid key ∧ Unmoved calm s₀ s' ∧
        s'.store = s.store)
      (fun _ _ => False) := by
  simp only [readSource, post_try_catch, post_bind, post_call_backend, post_pure]
  refine (hanswers.read bid b hbackend hup key s.world h.world).mono (fun rb w hw => ?_)
    fun exn w hw => ?_
  · exact ⟨hw.1.symm, ⟨hw.2, h.placements, h.backends, h.replicas⟩, trivial⟩
  · cases exn with
    | foreign => exact absurd rfl hw.2.1
    | error code message =>
        exact ⟨hw.1.symm, ⟨hw.2.2, h.placements, h.backends, h.replicas⟩, rfl⟩

/-- One candidate of a chunk: it has the right bytes and the search ends, or it has not and the
rest of the list decides. -/
theorem post_try_candidate (hanswers : Consistent answers calm s₀.store) (h : Unmoved calm s₀ s)
    {cd : ChunkDescriptor} {rid : ReplicaId} {rest : List ReplicaId}
    {Q : Option Bytes × RestoreEvidence → System W → Prop}
    (hskip : ∀ {s} evidence, Unmoved calm s₀ s →
      (∀ rb, answers.source s₀.store (blobKey cd.digest) rid = some rb →
        env.hash.sha256 rb ≠ cd.digest) →
      Post (restoreChunk env id cd rest evidence) s Q fun _ _ => False)
    (hfound : ∀ {s rb} evidence, Unmoved calm s₀ s → env.hash.sha256 rb = cd.digest →
      answers.source s₀.store (blobKey cd.digest) rid = some rb → Q (some rb, evidence) s)
    (evidence : RestoreEvidence) :
    Post (restoreChunk env id cd (rid :: rest) evidence) s Q fun _ _ => False := by
  unfold restoreChunk
  rw [post_bind, post_get]
  cases hreplica : s.store.replicas.find rid with
  | none =>
      refine hskip evidence h fun rb hrb => ?_
      rw [h.source_eq, source_of_no_replica hreplica] at hrb
      cases hrb
  | some rd =>
      dsimp only
      cases hbackend : s.store.backends.find rd.backendId with
      | none =>
          refine hskip _ h fun rb hrb => ?_
          rw [h.source_eq, source_of_no_backend hreplica hbackend] at hrb
          cases hrb
      | some b =>
          have hsource : answers.source s₀.store (blobKey cd.digest) rid = _ :=
            (h.source_eq _ rid).trans (source_of_backend hreplica hbackend _)
          have hbackend₀ : s₀.store.backends.find rd.backendId = some b := by
            rw [← h.backends, hbackend]
          dsimp only
          rw [post_bind, post_call_backend]
          refine (hanswers.health _ b hbackend₀ s.world h.world).mono (fun up w hw => ?_)
            fun _ _ hw => hw
          obtain ⟨rfl, hw⟩ := hw
          have h₁ : Unmoved calm s₀ { s with world := w } :=
            ⟨hw, h.placements, h.backends, h.replicas⟩
          rw [post_ite]
          -- A backend that is down is not read.
          refine ⟨fun hdown => hskip _ h₁ fun rb hrb => ?_, fun hup => ?_⟩
          · rw [hsource, hdown] at hrb
            cases hrb
          have hup : answers.up rd.backendId = true := by simpa using hup
          rw [post_bind]
          refine (post_read_source hanswers h₁ hbackend₀ hup (blobKey cd.digest)).mono
            (fun attempt s₂ hs₂ => ?_) fun _ _ hw => hw
          obtain ⟨hattempt, h₂, hstore⟩ := hs₂
          rw [if_pos hup, ← hattempt] at hsource
          cases attempt with
          | none =>
              refine hskip _ h₂ fun rb hrb => ?_
              rw [hsource] at hrb
              cases hrb
          | some rb =>
              dsimp only
              rw [post_ite]
              refine ⟨fun hdigest => hfound _ h₂ hdigest hsource, fun hdigest => ?_⟩
              -- The replica is quarantined, but a later chunk may still ask it.
              rw [post_bind, post_modify_store]
              refine hskip _ (h₂.quarantine rid rd) fun rb' hrb' => ?_
              rw [hsource] at hrb'
              cases hrb'
              exact hdigest

/-- Trying the candidates of a chunk finds what there is. -/
theorem post_restore_chunk_found (hanswers : Consistent answers calm s₀.store)
    (h : Unmoved calm s₀ s) (cd : ChunkDescriptor) (rids : List ReplicaId)
    (evidence : RestoreEvidence) :
    Post (restoreChunk env id cd rids evidence) s
      (fun found s' => Unmoved calm s₀ s' ∧ Found env answers s₀.store cd rids found.1)
      (fun _ _ => False) := by
  induction rids generalizing s evidence with
  | nil => exact ⟨h, by simp [Found]⟩
  | cons rid rest ih =>
      refine post_try_candidate hanswers h (fun evidence h₁ hbad => ?_)
        (fun _ h₁ hdigest hsource => ?_) evidence
      · exact (ih h₁ evidence).mono (fun _ _ hfound => ⟨hfound.1, hfound.2.skip hbad⟩)
          fun _ _ hthrown => hthrown
      · exact ⟨h₁, hdigest, rid, List.mem_cons_self, hsource⟩

/-- The restore loop returns the bytes that the entries are supplied with, and throws if one of
them is not or memory has no room for them. -/
theorem post_restore_chunks_supplied (hanswers : Consistent answers calm s₀.store)
    (h : Unmoved calm s₀ s) {rec : CheckpointRecord}
    (hfree : CollisionFree env.hash answers s₀.store rec) (entries : List ManifestEntry)
    {limit : Nat} (progress : RestoreProgress env) (hroom : progress.out.length ≤ limit) :
    Post (restoreChunks env limit id rec entries progress) s
      (fun progress' _ => progress'.out.length ≤ limit ∧ ∃ parts,
        List.Forall₂ (Supplies env.hash answers s₀.store rec) entries parts ∧
        progress'.out = progress.out ++ parts.flatten ∧
        progress'.combined = parts.foldl env.hash.update progress.combined)
      (fun _ _ => ∀ parts,
        List.Forall₂ (Supplies env.hash answers s₀.store rec) entries parts →
        limit < (progress.out ++ parts.flatten).length) := by
  induction entries generalizing s progress with
  | nil => exact ⟨hroom, [], .nil, by simp, rfl⟩
  | cons entry rest ih =>
      unfold restoreChunks
      cases hcd : rec.chunks.find? (fun cd => cd.id = entry.chunkId) with
      | none =>
          rintro parts (_ | ⟨⟨cd, hcd', _⟩, _⟩)
          rw [hcd] at hcd'
          cases hcd'
      | some cd =>
          dsimp only
          rw [post_bind, post_get, post_bind, h.candidates_eq]
          refine (post_restore_chunk_found hanswers h cd _ progress.evidence).mono
            (fun found s₁ hs₁ => ?_) fun _ _ h => h.elim
          obtain ⟨h₁, hfound⟩ := hs₁
          obtain ⟨bytes, evidence⟩ := found
          cases bytes with
          | none =>
              dsimp only
              rw [post_bind, post_modify_store, post_throw_store_error]
              rintro parts (_ | ⟨⟨cd', hcd', hdigest, rid, hin, hsource⟩, _⟩)
              rw [hcd] at hcd'
              cases hcd'
              exact absurd hdigest (hfound rid hin _ hsource)
          | some rb =>
              obtain ⟨hdigest, rid, hin, hsource⟩ := hfound
              have hsupplies : Supplies env.hash answers s₀.store rec entry rb :=
                ⟨cd, hcd, hdigest, rid, hin, hsource⟩
              dsimp only
              rw [post_ite]
              refine ⟨fun hlarge => ?_, fun hfits => ?_⟩
              · rintro _ (_ | ⟨hrb, _⟩)
                rw [hfree _ _ _ hrb hsupplies, List.flatten_cons, ← List.append_assoc,
                  List.length_append]
                exact Nat.lt_add_right _ hlarge
              refine (ih h₁ _ (Nat.not_lt.mp hfits)).mono (fun progress' _ hp => ?_)
                fun _ _ hnone => ?_
              · obtain ⟨hroom', parts, hparts, hout, hcombined⟩ := hp
                refine ⟨hroom', rb :: parts, .cons hsupplies hparts, ?_, hcombined⟩
                rw [hout, List.flatten_cons, List.append_assoc]
              · rintro _ (_ | ⟨hrb, hrest⟩)
                rw [hfree _ _ _ hrb hsupplies, List.flatten_cons, ← List.append_assoc]
                exact hnone _ hrest

/-- A restore in a calm world returns what is available, and throws if nothing is, if the record
does not admit it, or if memory has no room. -/
theorem post_restore_outcome (hanswers : Consistent answers calm s.store) (hcalm : calm s.world)
    {rec : CheckpointRecord} (hfree : CollisionFree env.hash answers s.store rec)
    (hfind : s.store.checkpoints.find id = some rec) (restoreId : RestoreId) :
    Post (restore env restoreId id) s
      (fun restored _ => rec.Admits (env.memory s.ticks) ∧ ∃ parts,
        Available env.hash answers s.store rec parts ∧
        parts.flatten.length ≤ env.memory s.ticks ∧ restored.bytes = parts.flatten)
      (fun _ _ => ¬ (rec.Admits (env.memory s.ticks) ∧ ∃ parts,
        Available env.hash answers s.store rec parts ∧
        parts.flatten.length ≤ env.memory s.ticks)) := by
  unfold restore
  rw [post_bind, post_get, hfind]
  dsimp only
  rw [post_ite]
  refine ⟨fun hlifecycle h => ?_, fun hlifecycle => ?_⟩
  · exact hlifecycle.elim h.1.eligible h.1.deleted
  obtain ⟨heligible, hdeleted⟩ := not_or.mp hlifecycle
  rw [post_ite]
  refine ⟨fun hsize h => absurd h.1.size (Nat.not_le.mpr hsize), fun hsize => ?_⟩
  have hadmits : rec.Admits (env.memory s.ticks) := ⟨heligible, hdeleted, Nat.not_lt.mp hsize⟩
  rw [post_bind]
  refine (post_restore_chunks_supplied hanswers (.refl hcalm) hfree rec.manifest.chunks _
    (Nat.zero_le _)).mono (fun progress s₁ hprogress => ?_) fun _ _ hnone h => ?_
  · obtain ⟨hroom, parts, hparts, hout, hcombined⟩ := hprogress
    rw [RestoreProgress.start_out, List.nil_append] at hout
    have hdigest : env.hash.final progress.combined = env.hash.sha256 parts.flatten := by
      rw [hcombined, RestoreProgress.start_combined, env.hash.final_foldl]
      rfl
    unfold finishRestore
    rw [post_ite]
    refine ⟨fun hmismatch => ?_, fun hmatch => ?_⟩
    · rw [post_bind, post_modify_store, post_throw_store_error]
      rintro ⟨_, parts', havailable, _⟩
      -- There are no other bytes than those that were read.
      rw [supplied_unique hfree havailable.entries hparts] at havailable
      exact hmismatch (hdigest.trans havailable.digest)
    · rw [post_bind, post_modify_store, post_pure]
      refine ⟨hadmits, parts, ⟨hparts, ?_⟩, hout ▸ hroom, hout⟩
      rw [← hdigest]
      exact not_not.mp hmatch
  · obtain ⟨_, parts, havailable, hfits⟩ := h
    exact absurd hfits (Nat.not_le.mpr (hnone parts havailable.entries))

end Loops

/-! ## The order of the placements -/

/-- The same chunk with its placements in another order. -/
def Rearranged (cd cd' : ChunkDescriptor) : Prop :=
  ∃ placements : List PlacementId, placements.Perm cd.placements ∧
    cd' = { cd with placements := placements }

/-- The system with other chunks in the record of a checkpoint. -/
def System.withChunks (s : System W) (id : CheckpointId) (chunks : List ChunkDescriptor) :
    System W :=
  { s with store := { s.store with
      checkpoints := s.store.checkpoints.modify id fun rec => { rec with chunks := chunks } } }

section Order

variable {store : Store W} {rec : CheckpointRecord} {chunks chunks' : List ChunkDescriptor}

theorem Rearranged.mem_candidates {cd cd' : ChunkDescriptor} (h : Rearranged cd cd')
    {rid : ReplicaId} (hin : rid ∈ candidates store rec cd) :
    rid ∈ candidates store { rec with chunks := chunks' } cd' := by
  obtain ⟨placements, hperm, rfl⟩ := h
  have hplaced := hperm.filterMap fun pid =>
    (store.placements.find pid).map PlacementDescriptor.replicaId
  unfold candidates at hin ⊢
  dsimp only at hin ⊢
  rw [hplaced.isEmpty_eq]
  split at hin
  · next hempty =>
      rw [if_pos hempty]
      exact hin
  · next hsome =>
      rw [if_neg hsome]
      exact hplaced.mem_iff.mpr hin

/-- The first descriptor with an identity is found in the same place. -/
theorem find_rearranged (h : List.Forall₂ Rearranged chunks chunks') (cid : ChunkId)
    {cd : ChunkDescriptor} (hfind : chunks.find? (fun cd => cd.id = cid) = some cd) :
    ∃ cd', chunks'.find? (fun cd => cd.id = cid) = some cd' ∧ Rearranged cd cd' := by
  induction h with
  | nil => cases hfind
  | @cons first first' rest rest' hfirst _ ih =>
      have hid : first'.id = first.id := by
        obtain ⟨placements, _, rfl⟩ := hfirst
        rfl
      by_cases heq : first.id = cid
      · rw [List.find?_cons_of_pos (by simpa using heq)] at hfind
        cases hfind
        exact ⟨first', List.find?_cons_of_pos (by simpa [hid] using heq), hfirst⟩
      · rw [List.find?_cons_of_neg (by simpa using heq)] at hfind
        obtain ⟨cd', hfind', hcd'⟩ := ih hfind
        exact ⟨cd', by rw [List.find?_cons_of_neg (by simpa [hid] using heq), hfind'], hcd'⟩

variable {H : StreamHash} {answers : BackendAnswers} {s : System W}

/-- Rearranging the placements takes nothing away. -/
theorem Supplies.rearranged {entry : ManifestEntry} {rb : Bytes}
    (hsupplies : Supplies H answers store rec entry rb)
    (h : List.Forall₂ Rearranged rec.chunks chunks') :
    Supplies H answers store { rec with chunks := chunks' } entry rb := by
  obtain ⟨cd, hcd, hdigest, rid, hin, hsource⟩ := hsupplies
  obtain ⟨cd', hcd', hrearranged⟩ := find_rearranged h entry.chunkId hcd
  have hsame : cd'.digest = cd.digest := by
    obtain ⟨placements, _, rfl⟩ := hrearranged
    rfl
  exact ⟨cd', hcd', hdigest.trans hsame.symm, rid, hrearranged.mem_candidates hin,
    by rw [hsame]; exact hsource⟩

theorem Rearranged.symm {cd cd' : ChunkDescriptor} (h : Rearranged cd cd') : Rearranged cd' cd := by
  obtain ⟨placements, hperm, rfl⟩ := h
  exact ⟨cd.placements, hperm.symm, rfl⟩

/-- Rearranging the placements adds nothing either. -/
theorem CollisionFree.rearranged (hfree : CollisionFree H answers store rec)
    (h : List.Forall₂ Rearranged rec.chunks chunks') :
    CollisionFree H answers store { rec with chunks := chunks' } := by
  have hback : List.Forall₂ Rearranged chunks' rec.chunks :=
    (h.imp fun _ _ hcd => hcd.symm).flip
  intro entry x y hx hy
  exact hfree entry x y (hx.rearranged hback) (hy.rearranged hback)

/-- Rearranged placements supply the same chunks. -/
theorem Available.rearranged {parts : List Bytes} (h : Available H answers store rec parts)
    (hchunks : List.Forall₂ Rearranged rec.chunks chunks') :
    Available H answers store { rec with chunks := chunks' } parts :=
  ⟨h.entries.imp fun _ _ hsupplies => hsupplies.rearranged hchunks, h.digest⟩

end Order

/-- Let every registered backend answer consistently during the call, let health checks not throw
and reads throw nothing but errors of the store, and let the bytes read be free of collisions. Then
`restore` returns exactly when the record admits it, every manifest entry has a chunk descriptor,
the first such descriptor has a candidate on a registered backend that is up and has bytes with the
chunk's digest, and those bytes together have the digest of the manifest and fit into memory. With
the placements of the chunks in any other order it returns the same bytes. -/
theorem restore_falls_back {env : Env} {answers : BackendAnswers} {calm : W → Prop}
    {s : System W} (hanswers : Consistent answers calm s.store) (hcalm : calm s.world)
    {id : CheckpointId} {rec : CheckpointRecord}
    (hfree : CollisionFree env.hash answers s.store rec)
    (hfind : s.store.checkpoints.find id = some rec) (restoreId : RestoreId) :
    ((∃ restored s', restore env restoreId id s = .ok restored s') ↔
      rec.Admits (env.memory s.ticks) ∧ ∃ parts, Available env.hash answers s.store rec parts ∧
        parts.flatten.length ≤ env.memory s.ticks) ∧
    ∀ restored s', restore env restoreId id s = .ok restored s' →
      ∀ chunks, List.Forall₂ Rearranged rec.chunks chunks →
        ∃ restored' t', restore env restoreId id (s.withChunks id chunks) = .ok restored' t' ∧
          restored'.bytes = restored.bytes := by
  have hpost := post_restore_outcome hanswers hcalm hfree hfind restoreId
  refine ⟨⟨fun h => ?_, fun h => ?_⟩, fun restored s' hrun chunks hchunks => ?_⟩
  · obtain ⟨restored, s', hrun⟩ := h
    obtain ⟨hadmits, parts, havailable, hfits, _⟩ := hpost.of_ok hrun
    exact ⟨hadmits, parts, havailable, hfits⟩
  · cases hrun : restore env restoreId id s with
    | ok restored s' => exact ⟨restored, s', rfl⟩
    | error exn s' => exact absurd h (hpost.of_error hrun)
  · obtain ⟨hadmits, parts, havailable, hfits, hbytes⟩ := hpost.of_ok hrun
    have hfind' : (s.withChunks id chunks).store.checkpoints.find id =
        some { rec with chunks := chunks } := by
      show (s.store.checkpoints.modify id _).find id = _
      rw [find_modify, if_pos rfl, hfind]
      rfl
    have hanswers' : Consistent answers calm (s.withChunks id chunks).store :=
      ⟨hanswers.health, hanswers.read⟩
    have hfree' : CollisionFree env.hash answers (s.withChunks id chunks).store
        { rec with chunks := chunks } := hfree.rearranged hchunks
    have havailable' : Available env.hash answers (s.withChunks id chunks).store
        { rec with chunks := chunks } parts :=
      ⟨(havailable.rearranged hchunks).entries, havailable.digest⟩
    have hpost' := post_restore_outcome hanswers' hcalm hfree' hfind' restoreId
    cases hrun' : restore env restoreId id (s.withChunks id chunks) with
    | error exn t' =>
        exact absurd ⟨⟨hadmits.eligible, hadmits.deleted, hadmits.size⟩, parts, havailable', hfits⟩
          (hpost'.of_error hrun')
    | ok restored' t' =>
        obtain ⟨_, parts', hparts', _, hbytes'⟩ := hpost'.of_ok hrun'
        refine ⟨restored', t', rfl, ?_⟩
        rw [hbytes', hbytes, supplied_unique hfree' hparts'.entries havailable'.entries]

/-! ## Concrete restores -/

/-- A backend that only answers. -/
def fixedBackend (answers : BackendAnswers) (id : StorageBackendId) : IBackend Unit where
  putTemp _ _ := pure ()
  commit _ := pure ()
  read key :=
    match answers.content id key with
    | some rb => pure rb
    | none => throwStoreError .notFound "object not found"
  existsKey key := pure (answers.content id key).isSome
  remove _ := pure false
  verify _ _ := pure .unknown
  health := pure (answers.up id)

theorem fixed_consistent {answers : BackendAnswers} {store : Store Unit}
    (h : ∀ id b, store.backends.find id = some b → b = fixedBackend answers id) :
    Consistent answers (fun _ => True) store where
  health id b hfind w _ := by
    rw [h id b hfind]
    exact ⟨rfl, trivial⟩
  read id b hfind _ key w _ := by
    rw [h id b hfind]
    show Post (match answers.content id key with
      | some rb => pure rb
      | none => throwStoreError .notFound "object not found") w _ _
    cases answers.content id key with
    | none => exact ⟨rfl, by simp, trivial⟩
    | some rb => exact ⟨rfl, trivial⟩

/-- Backend 2 has bytes that are not the chunk's, backend 3 has those of the chunk. -/
def fallbackAnswers : BackendAnswers where
  up _ := true
  content id _ := if id = ⟨2⟩ then some [9] else if id = ⟨3⟩ then some [0] else none

/-- A chunk with three placements. -/
def fallbackChunk : ChunkDescriptor where
  id := ⟨1⟩
  digest := tagHash.sha256 [0]
  placements := [⟨1⟩, ⟨2⟩, ⟨3⟩]

/-- Its record. -/
def fallbackRecord : CheckpointRecord where
  descriptor := sampleDescriptor 7 1 1
  manifest := {
    chunks := [{ chunkId := ⟨1⟩, logicalOffset := 0 }], checkpointDigest := tagHash.sha256 [0]
    semanticDigest := .zero }
  chunks := [fallbackChunk]
  lifecycle := .committed

/-- Each placement is on a backend of its own, and the first of these is not registered. -/
def fallbackSystem : System Unit where
  store := { Store.create {} (assign ⟨2⟩ (fixedBackend fallbackAnswers ⟨2⟩)
      (assign ⟨3⟩ (fixedBackend fallbackAnswers ⟨3⟩) ∅)) with
    checkpoints := assign ⟨7⟩ fallbackRecord ∅
    placements := assign ⟨1⟩ { replicaId := ⟨1⟩ } (assign ⟨2⟩ { replicaId := ⟨2⟩ }
      (assign ⟨3⟩ { replicaId := ⟨3⟩ } ∅))
    replicas := assign ⟨1⟩ { backendId := ⟨1⟩ } (assign ⟨2⟩ { backendId := ⟨2⟩ }
      (assign ⟨3⟩ { backendId := ⟨3⟩ } ∅)) }
  world := ()

/-- Two sources fail, and the third has the chunk. -/
theorem restore_falls_back_to_third :
    let env := sampleEnv tagHash
    ∃ restored s' restored' t', restore env ⟨1⟩ ⟨7⟩ fallbackSystem = .ok restored s' ∧
      restore env ⟨1⟩ ⟨7⟩ (fallbackSystem.withChunks ⟨7⟩
        [{ fallbackChunk with placements := [⟨3⟩, ⟨2⟩, ⟨1⟩] }]) = .ok restored' t' ∧
      restored'.bytes = restored.bytes := by
  intro env
  have hanswers : Consistent fallbackAnswers (fun _ => True) fallbackSystem.store := by
    refine fixed_consistent fun id b hfind => ?_
    have hfind' : (assign ⟨2⟩ (fixedBackend fallbackAnswers ⟨2⟩)
      (assign ⟨3⟩ (fixedBackend fallbackAnswers ⟨3⟩) ∅) :
        UnorderedMap StorageBackendId (IBackend Unit)).find id = some b := hfind
    simp only [find_assign] at hfind'
    split at hfind'
    · next hid => exact hid ▸ (Option.some.inj hfind').symm
    · split at hfind'
      · next hid => exact hid ▸ (Option.some.inj hfind').symm
      · cases hfind'
  have hcontents : ∀ {key rid x}, fallbackAnswers.source fallbackSystem.store key rid = some x →
      x = [9] ∨ x = [0] := by
    intro key rid x hsource
    obtain ⟨id, hx⟩ := content_of_source hsource
    simp only [fallbackAnswers] at hx
    split at hx
    · exact Or.inl (Option.some.inj hx).symm
    · split at hx
      · exact Or.inr (Option.some.inj hx).symm
      · cases hx
  have hfree : CollisionFree env.hash fallbackAnswers fallbackSystem.store fallbackRecord := by
    intro entry x y hx hy
    obtain ⟨cd, hcd, hdigest, _, _, hsource⟩ := hx
    obtain ⟨cd', hcd', hdigest', _, _, hsource'⟩ := hy
    cases hcd.symm.trans hcd'
    have hsame := hdigest.trans hdigest'.symm
    have hdiffer : tagHash.sha256 [9] ≠ tagHash.sha256 [0] := by decide
    rcases hcontents hsource with rfl | rfl <;> rcases hcontents hsource' with rfl | rfl
    · rfl
    · exact absurd hsame hdiffer
    · exact absurd hsame.symm hdiffer
    · rfl
  obtain ⟨hiff, horder⟩ := restore_falls_back hanswers trivial hfree
    (rfl : fallbackSystem.store.checkpoints.find ⟨7⟩ = some fallbackRecord) ⟨1⟩
  have hsupplies : Supplies tagHash fallbackAnswers fallbackSystem.store fallbackRecord
      { chunkId := ⟨1⟩, logicalOffset := 0 } [0] :=
    ⟨fallbackChunk, rfl, rfl, ⟨3⟩, by decide +kernel, by decide +kernel⟩
  obtain ⟨restored, s', hrun⟩ := hiff.mpr ⟨⟨by decide, by decide, by decide⟩, [[0]],
    ⟨.cons hsupplies .nil, rfl⟩, by decide⟩
  obtain ⟨restored', t', hrun', hbytes⟩ := horder restored s' hrun _
    (.cons ⟨[⟨3⟩, ⟨2⟩, ⟨1⟩], by decide, rfl⟩ .nil)
  exact ⟨restored, s', restored', t', hrun, hrun', hbytes⟩

/-- What the in-memory backend answers in a world. -/
def memoryAnswers (w : MemoryWorld) : BackendAnswers where
  up _ := true
  content _ key := w.objects.find key

theorem mem_values_of_content {w : MemoryWorld} {id : StorageBackendId} {key : BackendKey}
    {x : Bytes} (h : (memoryAnswers w).content id key = some x) : x ∈ w.objects.values :=
  mem_values.mpr ⟨key, h⟩

/-- The in-memory backend answers consistently as long as nothing happens in its world. -/
theorem memory_consistent {H : StreamHash} {store : Store MemoryWorld} {w₀ : MemoryWorld}
    (hfaults : w₀.faults = [])
    (hbackends : ∀ id b, store.backends.find id = some b → b = memoryBackend H) :
    Consistent (memoryAnswers w₀) (fun w => w = w₀) store where
  health id b hfind w hw := by
    rw [hbackends id b hfind]
    exact ⟨rfl, hw⟩
  read id b hfind _ key w hw := by
    subst hw
    rw [hbackends id b hfind]
    have hfault : MemoryWorld.fault w = .ok () w := by
      unfold MemoryWorld.fault
      rw [hfaults]
    have hread : Post MemoryWorld.fault w (fun _ w' => w' = w) (fun _ _ => False) := by
      unfold Post
      rw [hfault]
    simp only [memoryBackend, post_bind, post_get]
    refine hread.mono (fun _ w' hw => ?_) (fun _ _ h => h.elim)
    subst hw
    cases hdata : w'.objects.find key with
    | none => simpa [memoryAnswers] using hdata
    | some data => simpa [memoryAnswers] using hdata

/-- Until a restart the same backends are registered. -/
theorem find_backend_run {env : Env} {s s' : System W} {events : List (Event W)}
    (hrun : Run (Step env Anything) s events s') (hreopens : ∀ e ∈ events, e.reopens = false)
    (id : StorageBackendId) : s'.store.backends.find id = s.store.backends.find id := by
  refine Run.invariant_on (A := fun e => e.reopens = false)
    (fun _ t => t.store.backends.find id = s.store.backends.find id) rfl ?_ hrun hreopens
  intro events t e t' _ ht he hstep
  exact ((step_transition (all_look_anything t) hstep).find_backend he id).trans ht

/-- The state after a publication of one byte under a declared size that no vector can have. -/
def oversizedSystem : System MemoryWorld :=
  sampleRun sha256Hash [] [.createFamily, .publish (sampleDescriptor 7 1 (2 ^ 63)) [0]]

theorem oversized_facts :
    (∃ rec ∈ oversizedSystem.store.checkpoints.find ⟨7⟩, rec.lifecycle = .committed ∧
      rec.manifest.chunks.length = 1 ∧
      (∀ entry ∈ rec.manifest.chunks,
        Supplies sha256Hash (memoryAnswers oversizedSystem.world) oversizedSystem.store rec entry
          [0]) ∧
      sha256Hash.sha256 [0] = rec.manifest.checkpointDigest) ∧
    thrown (restore (sampleEnv sha256Hash) ⟨1⟩ ⟨7⟩ oversizedSystem) = some .foreign ∧
    oversizedSystem.world.faults = [] ∧ oversizedSystem.world.objects.values = [[0]] := by
  decide +kernel

/-- The declared size makes every restore throw, although the backend answers consistently and the
one chunk can be read. -/
theorem declared_size_prevents_restore :
    ∃ events rec, Run (Step (sampleEnv sha256Hash) Anything) (sampleSystem sha256Hash []) events
        oversizedSystem ∧
      oversizedSystem.store.checkpoints.find ⟨7⟩ = some rec ∧ rec.lifecycle = .committed ∧
      Consistent (memoryAnswers oversizedSystem.world) (fun w => w = oversizedSystem.world)
        oversizedSystem.store ∧
      CollisionFree sha256Hash (memoryAnswers oversizedSystem.world) oversizedSystem.store rec ∧
      Available sha256Hash (memoryAnswers oversizedSystem.world) oversizedSystem.store rec [[0]] ∧
      thrown (restore (sampleEnv sha256Hash) ⟨1⟩ ⟨7⟩ oversizedSystem) = some .foreign := by
  obtain ⟨⟨rec, hfind, hcommitted, hone, hsupplies, hdigest⟩, hthrown, hfaults, hobjects⟩ :=
    oversized_facts
  have hrun : Run (Step (sampleEnv sha256Hash) Anything) (sampleSystem sha256Hash []) _
      oversizedSystem := run_calls _ Anything (sampleSystem sha256Hash []) _
  have hcontent : ∀ {key rid x}, (memoryAnswers oversizedSystem.world).source
      oversizedSystem.store key rid = some x → x = [0] := by
    intro key rid x hsource
    obtain ⟨id, hx⟩ := content_of_source hsource
    have hin := mem_values_of_content hx
    rw [hobjects] at hin
    exact List.mem_singleton.mp hin
  obtain ⟨entry, hentry⟩ := List.length_eq_one_iff.mp hone
  have hbackends : ∀ id b, oversizedSystem.store.backends.find id = some b →
      b = memoryBackend sha256Hash := by
    intro id b hb
    have hreopen := find_backend_run hrun (fun _ => reopens_of_mem_call_events (by decide)) id
    exact sample_backends sha256Hash (hreopen.symm.trans hb)
  refine ⟨_, rec, hrun, hfind, hcommitted, memory_consistent hfaults hbackends, ?_,
    ⟨?_, by simpa using hdigest⟩, hthrown⟩
  · rintro entry x y ⟨_, _, _, _, _, hx⟩ ⟨_, _, _, _, _, hy⟩
    rw [hcontent hx, hcontent hy]
  · rw [hentry]
    exact .cons (hsupplies entry (by simp [hentry])) .nil

end CheckpointStore
