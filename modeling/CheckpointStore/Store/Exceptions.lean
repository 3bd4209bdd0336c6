import CheckpointStore.Persistence.StateFile
import CheckpointStore.Store.Frame
import CheckpointStore.Store.Writing

/-!
# Exceptions

The store reports its failures as `CheckpointStoreError`, with messages of its own. Other exceptions
come from the backends, and from memory that does not suffice for a restore. If the backends
throw only exceptions of a class that contains the store's own errors, so do the operations
(`Contained`), apart from a restore that memory has no room for (`restore_foreign_iff`).
-/

namespace CheckpointStore

open Foundation Foundation.Procedure

variable {W α : Type}

/-- A backend that throws only exceptions of the class `E`. -/
structure IBackend.Throws (E : Exn → Prop) (b : IBackend W) : Prop where
  put_temp : ∀ {key data w e}, thrown (b.putTemp key data w) = some e → E e
  commit : ∀ {key w e}, thrown (b.commit key w) = some e → E e
  read : ∀ {key w e}, thrown (b.read key w) = some e → E e
  exists_key : ∀ {key w e}, thrown (b.existsKey key w) = some e → E e
  remove : ∀ {key w e}, thrown (b.remove key w) = some e → E e
  verify : ∀ {key d w e}, thrown (b.verify key d w) = some e → E e
  health : ∀ {w e}, thrown (b.health w) = some e → E e

/-- More exceptions may be allowed. -/
theorem IBackend.Throws.mono {E E' : Exn → Prop} {b : IBackend W} (h : b.Throws E)
    (hE : ∀ e, E e → E' e) : b.Throws E' :=
  ⟨fun he => hE _ (h.put_temp he), fun he => hE _ (h.commit he), fun he => hE _ (h.read he),
    fun he => hE _ (h.exists_key he), fun he => hE _ (h.remove he), fun he => hE _ (h.verify he),
    fun he => hE _ (h.health he)⟩

/-- Registered backends that throw only exceptions of the class `E`. -/
def AllThrow (E : Exn → Prop) (backends : UnorderedMap StorageBackendId (IBackend W)) : Prop :=
  ∀ id b, backends.find id = some b → b.Throws E

/-- Any backends throw exceptions. -/
theorem all_throw_anything (backends : UnorderedMap StorageBackendId (IBackend W)) :
    AllThrow (fun _ => True) backends :=
  fun _ _ _ => ⟨fun _ => trivial, fun _ => trivial, fun _ => trivial, fun _ => trivial,
    fun _ => trivial, fun _ => trivial, fun _ => trivial⟩

/-- On a store with the given backends, the procedure throws only exceptions of the class `E` and
leaves the same backends. -/
def Contained (backends : UnorderedMap StorageBackendId (IBackend W)) (E : Exn → Prop)
    (m : Proc (System W) α) : Prop :=
  Ends (fun s => s.store.backends = backends) E m

section Invariants

variable (backends : UnorderedMap StorageBackendId (IBackend W))

/-- Looking registers no backend. -/
theorem look_invariant_backends :
    LookInvariant fun s : System W => s.store.backends = backends where
  called hs _ _ _ := hs
  observed _ hs := hs
  drawn hs := hs
  planned _ hs := hs
  judged _ _ hs := hs
  judgedChunk _ _ _ hs := hs
  failed hs := hs
  restored _ _ _ hs := hs

/-- Publishing registers no backend. -/
theorem publish_invariant_backends :
    PublishInvariant fun s : System W => s.store.backends = backends where
  called _ hs := hs
  observed _ hs := hs
  stale hs := hs
  duplicate hs := hs
  corrupt hs := hs
  shared _ hs := hs
  recorded _ _ hs := hs

end Invariants

/-- Nor does a quarantine. -/
theorem backends_quarantine (id : CheckpointId) (rid : ReplicaId) (rd : ReplicaDescriptor)
    (store : Store W) : (quarantine id rid rd store).backends = store.backends := by
  unfold quarantine
  split <;> rfl

variable {backends : UnorderedMap StorageBackendId (IBackend W)} {E : Exn → Prop}

/-! ## Operations without errors of their own -/

/-- A procedure that only reads the clock. -/
theorem contained_of_clock_only {m : Proc (System W) α} (h : Returns ClockOnly m) :
    Contained backends E m := by
  intro s hs
  refine h.post fun _ s' _ hs' => ?_
  obtain ⟨n, rfl⟩ := hs'
  exact hs

theorem contained_next_id : Contained backends E (nextId : Proc (System W) UInt64) :=
  fun _ hs => hs

theorem contained_create_family :
    Contained backends E (createFamily : Proc (System W) CheckpointFamilyId) :=
  ends_get_bind fun _ _ => ends_bind (ends_modify fun _ hs => hs) fun _ => ends_pure _

theorem contained_reset_authority : Contained backends E (resetAuthority : Proc (System W) Unit) :=
  ends_modify fun _ hs => hs

theorem contained_set_authority_boot (boot : WorkerBootId) :
    Contained backends E (setAuthorityBoot boot : Proc (System W) Unit) :=
  ends_modify fun _ hs => hs

theorem contained_set_retention_policy (policy : RetentionPolicy) :
    Contained backends E (setRetentionPolicy policy : Proc (System W) RetentionPolicy) :=
  ends_bind (ends_modify fun _ hs => hs) fun _ => ends_pure _

/-- A plan throws nothing. -/
theorem contained_gc_plan (env : Env) :
    Contained backends E (gcPlan env : Proc (System W) GcRunResult) :=
  ends_bind (contained_of_clock_only (returns_gc_eligible_checkpoints env)) fun _ =>
    ends_bind (contained_of_clock_only (returns_compute_protected_set env)) fun _ =>
    ends_get_bind fun _ _ => ends_bind contained_next_id fun _ =>
    ends_bind (ends_modify fun _ hs => hs) fun _ => ends_pure _

theorem backends_sweep (eligible : List CheckpointId) (store : Store W) :
    (sweep eligible store).backends = store.backends := by
  obtain ⟨_, _, _, hsweep⟩ := sweep_store_eq eligible store
  rw [hsweep]

theorem contained_remove_object {b : IBackend W} (hb : b.Throws E) (id : StorageBackendId)
    (key : BackendKey) : Contained backends E (removeObject id b key) := by
  intro s hs
  rw [post_remove_object]
  exact post_of_runs (fun _ _ _ => hs) fun e w hrun => ⟨hb.remove (by rw [hrun]; rfl), hs⟩

/-- Removing replicas throws what the backends throw. -/
theorem contained_remove_replicas (hbackends : AllThrow E backends) (digest : Digest)
    (rids : List ReplicaId) (removedAny allRemoved : Bool) :
    Contained backends E (removeReplicas digest rids removedAny allRemoved :
      Proc (System W) (Bool × Bool)) := by
  induction rids generalizing removedAny allRemoved with
  | nil => exact ends_pure _
  | cons rid rest ih =>
      refine ends_get_bind fun s hs => ?_
      cases s.store.replicas.find rid with
      | none => exact ih _ _
      | some rd =>
          simp only
          cases hb : s.store.backends.find rd.backendId with
          | none => exact ih _ _
          | some b =>
              exact ends_bind (contained_remove_object (hbackends _ b (hs ▸ hb)) _ _)
                fun _ => ih _ _

/-- So does the loop over the blobs. -/
theorem contained_reclaim_blobs (hbackends : AllThrow E backends) (reachable bids : List BlobId)
    (result : GcRunResult) :
    Contained backends E (reclaimBlobs reachable bids result : Proc (System W) GcRunResult) := by
  induction bids generalizing result with
  | nil => exact ends_pure _
  | cons bid rest ih =>
      refine ends_bind (ends_get_bind fun s _ => ends_ite (fun _ => ends_pure _) fun _ => ?_)
        fun _ => ih _
      cases s.store.blobs.find bid with
      | none => exact ends_pure _
      | some bd =>
          exact ends_ite (fun _ => ends_pure _) fun _ =>
            ends_bind (contained_remove_replicas hbackends _ _ _ _) fun _ =>
            ends_bind (ends_modify fun _ hs => hs) fun _ => ends_pure _

/-- A collection throws what the backends throw. -/
theorem contained_gc_run (hbackends : AllThrow E backends) (env : Env) :
    Contained backends E (gcRun env : Proc (System W) GcRunResult) :=
  ends_bind (contained_of_clock_only (returns_gc_eligible_checkpoints env)) fun eligible =>
    ends_bind (contained_of_clock_only (returns_compute_protected_set env)) fun _ =>
    ends_get_bind fun _ _ => ends_bind (ends_modify fun s hs =>
      (backends_sweep eligible s.store).trans hs) fun _ =>
    ends_bind (contained_reclaim_blobs hbackends _ _ _) fun _ =>
    ends_bind (ends_modify fun _ hs => hs) fun _ => ends_pure _

/-- A rollback always runs to its end, and does not touch the backends. -/
theorem contained_rollback (b : IBackend W) (l : PublishLocals) :
    Contained backends E (rollback b l) := by
  intro s hs
  refine (post_rollback l s).mono (fun _ s' hs' => ?_) fun _ _ h => h.elim
  obtain ⟨w, _, rfl⟩ := hs'
  exact hs

/-! ## Operations with errors of their own -/

section Own

variable (hE : ∀ {e : Exn}, e.own = true → E e)

include hE

/-- An error of the library is allowed. -/
theorem contained_error {code : ErrorCode} {message : String}
    (hown : (Exn.error code message).own = true) :
    Contained backends E (throwStoreError code message : Proc (System W) α) :=
  ends_throw (hE hown)

/-- Looking throws errors of the library and what the backends throw. -/
theorem look_throws (hbackends : AllThrow E backends) :
    LookThrows (fun s : System W => s.store.backends = backends) E where
  error := hE
  called {_ _ id b _ w _} hs hb hcall hthrown := by
    have hthrows := hbackends id b (hs ▸ hb)
    cases hcall with
    | read key => exact hthrows.read hthrown
    | existsKey key => exact hthrows.exists_key hthrown
    | verify key d => exact hthrows.verify hthrown
    | health => exact hthrows.health hthrown

/-- Verifying throws no more than that. -/
theorem contained_verify_checkpoint (hbackends : AllThrow E backends) (env : Env)
    (id : CheckpointId) :
    Contained backends E (verifyCheckpoint env id : Proc (System W) IntegrityState) :=
  (look_invariant_backends _).ends_verify_checkpoint (look_throws hE hbackends) env id

/-- Reading one chunk needs no more memory than the backend takes. -/
theorem contained_restore_chunk (hbackends : AllThrow E backends) (env : Env)
    (id : CheckpointId) (cd : ChunkDescriptor) (rids : List ReplicaId)
    (evidence : RestoreEvidence) :
    Contained backends E (restoreChunk env id cd rids evidence :
      Proc (System W) (Option Bytes × RestoreEvidence)) :=
  (look_invariant_backends _).ends_restore_chunk (P := fun _ => True) (look_throws hE hbackends)
    (fun rd hs _ => (backends_quarantine id _ rd _).trans hs) env cd (fun _ _ => trivial) evidence

/-- A restore throws that, or finds no memory. -/
theorem contained_restore (hbackends : AllThrow E backends) (hmemory : E .foreign) (env : Env)
    (restoreId : RestoreId) (id : CheckpointId) :
    Contained backends E (restore env restoreId id : Proc (System W) RestoredCheckpoint) :=
  (look_invariant_backends _).ends_restore (P := fun _ => True) (look_throws hE hbackends)
    (fun rd hs _ => (backends_quarantine id _ rd _).trans hs) hmemory env restoreId
    fun _ _ _ _ _ _ => trivial

/-- A descriptor is made or refused with an error of the library. -/
theorem contained_make_full_descriptor (env : Env) (family : CheckpointFamilyId) (owner : OwnerId)
    (logicalSize : UInt64) (durability : DurabilityClass) :
    Contained backends E (makeFullDescriptor env family owner logicalSize durability :
      Proc (System W) CheckpointDescriptor) := by
  refine ends_get_bind fun s _ => ?_
  cases s.store.nextCheckpointGeneration.find family with
  | none => exact contained_error hE rfl
  | some next =>
      exact ends_bind contained_next_id fun _ =>
        ends_bind (contained_of_clock_only (returns_now env)) fun _ => ends_pure _

/-- So is a retirement. -/
theorem contained_retire (env : Env) (id : CheckpointId) :
    Contained backends E (retire env id : Proc (System W) Unit) := by
  refine ends_get_bind fun s _ => ?_
  cases s.store.checkpoints.find id with
  | none => exact contained_error hE rfl
  | some rec =>
      refine ends_ite (fun _ => contained_error hE rfl) fun _ =>
        ends_bind (ends_modify fun _ hs => hs) fun _ => ?_
      exact ends_bind (contained_of_clock_only (returns_gc_eligible_checkpoints env)) fun _ =>
        ends_modify fun _ hs => hs

/-- So is saving, whatever the file system answers. -/
theorem contained_save_state (env : Env) (answers : WriteAnswers) :
    Contained backends E (saveState env answers : Proc (System W) Unit) := by
  have hfiles : ∀ f, Contained backends E (modifyFiles f : Proc (System W) Unit) := fun _ _ hs => hs
  refine ends_get_bind fun s _ => ends_ite (fun _ => contained_error hE rfl) fun _ =>
    ends_ite (fun _ => ends_bind (hfiles _) fun _ => contained_error hE rfl) fun _ =>
    ends_bind (hfiles _) fun _ => ends_bind (hfiles _) fun _ =>
    ends_ite (fun _ => contained_error hE rfl) fun _ => hfiles _

/-- Publishing throws what the backend throws. -/
theorem publish_throws {b : IBackend W} (hb : b.Throws E) : PublishThrows b E where
  error := hE
  put_temp := hb.put_temp
  commit := hb.commit
  verify := hb.verify
  read := hb.read

/-- The part behind the chunk loop throws no more than that. -/
theorem contained_finish_publish (env : Env) {b : IBackend W} (hb : b.Throws E)
    (descriptor : CheckpointDescriptor) (data : Bytes) {l : PublishLocals} (hl : l.Known) :
    Contained backends E (finishPublish env b descriptor data l) := by
  have hknown : ∀ e ∈ sortedEntries l, l.chunkSizes.contains e.chunkId = true :=
    fun e he => hl e ((List.mem_insertionSort _).mp he)
  refine ends_bind ((publish_invariant_backends _).ends_read_back (publish_throws hE hb) env _ _)
    fun combined => ends_ite (fun _ => contained_error hE rfl) fun _ => ?_
  refine ends_bind (ends_from_except_error hE (own_failures_tile_manifest hknown 0))
    fun expected => ends_ite (fun _ => contained_error hE rfl) fun _ => ?_
  exact ends_bind contained_next_id fun _ =>
    ends_bind (ends_modify fun _ hs => hs) fun _ => ends_pure _

/-- Publishing throws errors of the library and what the backends throw. -/
theorem contained_publish (hbackends : AllThrow E backends) (env : Env)
    (descriptor : CheckpointDescriptor) (data : Bytes) :
    Contained backends E (publish env descriptor data : Proc (System W) PublishedCheckpoint) := by
  intro s hs
  rw [publish, post_bind]
  refine (((publish_invariant_backends _).ends_check_admission hE descriptor s hs).and
    (post_check_admission s descriptor)).mono (fun b s₁ hs₁ => ?_) fun _ _ hs₁ => hs₁.1
  obtain ⟨hsame, rfl, hadmitted⟩ := hs₁
  have hb := hbackends _ b (hsame ▸ hadmitted.backend)
  revert hsame
  refine ends_get_bind (fun s' _ => ends_bind (ends_from_except_error hE ?_) fun slices =>
    ends_bind contained_next_id fun replicaId => ?_) s₁
  · exact own_failures_chunk_stream _ _ _
  · intro s₂ hs₂
    rw [post_with_locals]
    have hloop := ends_for_m slices
      ((publish_invariant_backends backends).ends_publish_slice (publish_throws hE hb))
    have hbody : Ends (PublishingWith fun s : System W => s.store.backends = backends) E
        (tryCatch (publishBody env b descriptor data slices) fun e => do
          let p ← get
          onSystem (rollback b p.locals)
          throw e) :=
      ends_try_catch (ends_bind hloop fun _ => ends_get_bind fun p hp => ends_on_system
          (contained_finish_publish hE env hb descriptor data hp.2)) fun e he =>
        ends_get_bind fun p _ => ends_bind (ends_on_system (contained_rollback b p.locals)) fun _ =>
        ends_throw he
    refine (hbody ⟨s₂, _⟩ ⟨hs₂, fun _ he => by cases he⟩).mono (fun _ _ hp => hp.1)
      fun _ _ hp => ⟨hp.1, hp.2.1⟩

end Own

/-! ## Memory -/

/-- With as much memory as they need, some of the next chunks are read, and come to more than
`limit` bytes. -/
def Outgrows (env : Env) (limit : Nat) (id : CheckpointId) (rec : CheckpointRecord)
    (entries : List ManifestEntry) (progress : RestoreProgress env) (s : System W) : Prop :=
  ∃ n reached s',
    restoreChunks env reached.out.length id rec (entries.take n) progress s = .ok reached s' ∧
      limit < reached.out.length

/-- A checkpoint for whose restore memory does not suffice: its declared size is reserved first, and
then its chunks are put together. -/
def TooLarge (env : Env) (restoreId : RestoreId) (id : CheckpointId) (s : System W) : Prop :=
  ∃ rec, s.store.checkpoints.find id = some rec ∧
    ¬(rec.lifecycle = .gcEligible ∨ rec.lifecycle = .deleted) ∧
    (env.memory s.ticks < rec.descriptor.logicalSize.toNat ∨
      Outgrows env (env.memory s.ticks) id rec rec.manifest.chunks (.start env restoreId id rec) s)

/-- The first chunk is read, and memory decides whether the loop goes on, or the loop ends with
another exception, whatever the memory is. -/
theorem restore_chunks_cons (env : Env) (id : CheckpointId) (rec : CheckpointRecord)
    (entry : ManifestEntry) (progress : RestoreProgress env) {s : System W}
    (hbackends : AllThrow (· ≠ .foreign) s.store.backends) :
    (∃ rb next s', next.out = progress.out ++ rb ∧ s'.store.backends = s.store.backends ∧
      ∀ limit rest, restoreChunks env limit id rec (entry :: rest) progress s =
        if limit < next.out.length then .error .foreign s'
        else restoreChunks env limit id rec rest next s') ∨
    ∃ e s', e ≠ .foreign ∧ ∀ limit rest,
      restoreChunks env limit id rec (entry :: rest) progress s = .error e s' := by
  cases hfind : rec.chunks.find? (fun cd => cd.id = entry.chunkId) with
  | none =>
      refine .inr ⟨.error .malformed "restore: chunk missing from record", s, by simp, ?_⟩
      intro limit rest
      rw [restoreChunks, hfind]
      rfl
  | some cd =>
      have hread := contained_restore_chunk ne_foreign_of_own hbackends env id cd
        (candidates s.store rec cd) progress.evidence s rfl
      cases hrun : restoreChunk env id cd (candidates s.store rec cd) progress.evidence s with
      | error e s' =>
          refine .inr ⟨e, s', (hread.of_error hrun).1, fun limit rest => ?_⟩
          rw [restoreChunks, hfind]
          exact bind_of_error hrun _
      | ok found s' =>
          obtain ⟨rb, evidence⟩ := found
          cases rb with
          | none =>
              refine .inr ⟨.error .corrupt "restore: no verified replica for a required chunk",
                { s' with store := setIntegrity id .corrupt s'.store }, by simp, ?_⟩
              intro limit rest
              rw [restoreChunks, hfind]
              exact bind_of_ok hrun _
          | some rb =>
              refine .inl ⟨rb, { progress with
                out := progress.out ++ rb
                combined := env.hash.update progress.combined rb
                evidence := evidence
                bytesRestored := progress.bytesRestored + byteSize rb
                chunksRestored := progress.chunksRestored + 1 }, s', rfl, hread.of_ok hrun, ?_⟩
              intro limit rest
              rw [restoreChunks, hfind]
              refine (bind_of_ok hrun _).trans ?_
              simp only
              split
              · rfl
              · rfl

/-- What outgrows a limit that it does not exceed yet has read the next chunk. -/
theorem outgrows_cons_iff {env : Env} {limit : Nat} {id : CheckpointId} {rec : CheckpointRecord}
    {entry : ManifestEntry} {rest : List ManifestEntry} {progress : RestoreProgress env}
    {s : System W} (hroom : progress.out.length ≤ limit) :
    Outgrows env limit id rec (entry :: rest) progress s ↔ ∃ n reached s',
      restoreChunks env reached.out.length id rec (entry :: rest.take n) progress s =
        .ok reached s' ∧ limit < reached.out.length := by
  constructor
  · rintro ⟨n, reached, s', hrun, hlarge⟩
    cases n with
    | zero =>
        cases hrun
        omega
    | succ n => exact ⟨n, reached, s', hrun, hlarge⟩
  · rintro ⟨n, reached, s', hrun, hlarge⟩
    exact ⟨n + 1, reached, s', hrun, hlarge⟩

/-- The loop runs out of memory exactly when the chunks it reads outgrow it. -/
theorem restore_chunks_foreign_iff {env : Env} {limit : Nat} {id : CheckpointId}
    {rec : CheckpointRecord} {entries : List ManifestEntry} {progress : RestoreProgress env}
    {s : System W} (hbackends : AllThrow (· ≠ .foreign) s.store.backends)
    (hroom : progress.out.length ≤ limit) :
    thrown (restoreChunks env limit id rec entries progress s) = some .foreign ↔
      Outgrows env limit id rec entries progress s := by
  induction entries generalizing progress s with
  | nil =>
      refine iff_of_false (fun h => by cases h) ?_
      rintro ⟨n, reached, s', hrun, hlarge⟩
      rw [List.take_nil] at hrun
      cases hrun
      omega
  | cons entry rest ih =>
      rw [outgrows_cons_iff hroom]
      rcases restore_chunks_cons env id rec entry progress hbackends with
        ⟨rb, next, s', hout, hsame, hstep⟩ | ⟨e, s', hne, hstop⟩
      · simp only [hstep]
        split
        · next hlarge =>
            refine iff_of_true rfl ⟨0, next, s', ?_, hlarge⟩
            rw [if_neg (Nat.lt_irrefl _)]
            rfl
        · next hfits =>
            rw [ih (hsame ▸ hbackends) (Nat.not_lt.mp hfits)]
            refine exists_congr fun n => exists_congr fun reached => exists_congr fun s₁ =>
              and_congr_left fun hlarge => ?_
            rw [if_neg (by omega)]
      · simp only [hstop]
        refine iff_of_false (fun h => hne (Option.some.inj h)) ?_
        rintro ⟨n, reached, s₁, hrun, hlarge⟩
        cases hrun

/-- For backends that throw errors of the store only, a restore ends with another exception exactly
when memory does not suffice for it. -/
theorem restore_foreign_iff {env : Env} {restoreId : RestoreId} {id : CheckpointId}
    {s : System W} (hbackends : AllThrow (· ≠ .foreign) s.store.backends) :
    thrown (restore env restoreId id s) = some .foreign ↔ TooLarge env restoreId id s := by
  unfold restore TooLarge
  rw [bind_of_ok (show (get : Proc (System W) _) s = .ok s s from rfl)]
  cases hfind : s.store.checkpoints.find id with
  | none => exact iff_of_false (fun h => by cases h) (by simp)
  | some rec =>
      simp only [Option.some.injEq, exists_eq_left']
      split
      · next hgone => exact iff_of_false (fun h => by cases h) fun h => h.1 hgone
      · next hlive =>
          split
          · next hlarge => exact iff_of_true rfl ⟨hlive, .inl hlarge⟩
          · next hfits =>
              have hchunks : thrown (restoreChunks env (env.memory s.ticks) id rec
                  rec.manifest.chunks (.start env restoreId id rec) s) = some .foreign ↔
                  Outgrows env (env.memory s.ticks) id rec rec.manifest.chunks
                    (.start env restoreId id rec) s :=
                restore_chunks_foreign_iff hbackends (Nat.zero_le _)
              simp only [hlive, hfits, not_false_eq_true, true_and, false_or]
              rw [← hchunks]
              cases hrun : restoreChunks env (env.memory s.ticks) id rec rec.manifest.chunks
                  (.start env restoreId id rec) s with
              | error e s' =>
                  rw [bind_of_error hrun]
                  exact Iff.rfl
              | ok progress s' =>
                  rw [bind_of_ok hrun]
                  refine iff_of_false (fun h => ?_) fun h => by cases h
                  unfold finishRestore at h
                  split at h <;> cases h
end CheckpointStore
