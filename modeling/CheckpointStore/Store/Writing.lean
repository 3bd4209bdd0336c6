import CheckpointStore.Store.PublishSteps

/-!
# Invariants of a publication

Until its commit a publication changes the system in a few elementary ways. `PublishInvariant I`
lists them; then the parts of `publish` keep `I`, and what they throw is in every class that
contains the errors of the store and what the backend throws (`PublishThrows`). The table of chunk
sizes knows every chunk of the manifest (`PublishLocals.Known`), so that `chunk_sizes.at` finds it.
-/

namespace CheckpointStore

open Foundation Foundation.Procedure

variable {W α : Type}

/-- A property of the system that no elementary change of a publication destroys. -/
structure PublishInvariant (I : System W → Prop) : Prop where
  called : ∀ {s : System W} (w : W), I s → I { s with world := w }
  observed : ∀ {s : System W} (o : Observation), I s → I { s with trace := s.trace ++ [o] }
  stale : ∀ {s : System W}, I s → I { s with store := { s.store with
    counters := { s.store.counters with
      staleRejections := s.store.counters.staleRejections + 1 } } }
  duplicate : ∀ {s : System W}, I s → I { s with store := { s.store with
    counters := { s.store.counters with
      duplicateRejections := s.store.counters.duplicateRejections + 1 } } }
  corrupt : ∀ {s : System W}, I s → I { s with store := { s.store with
    counters := { s.store.counters with
      integrityFailures := s.store.counters.integrityFailures + 1 } } }
  shared : ∀ {s : System W} (dedup : DedupTable), I s →
    I { s with store := { s.store with dedup := dedup } }
  recorded : ∀ {p : Publishing W} (slice : ChunkSlice) (blobId : BlobId), I p.system →
    I (recordChunk slice blobId p).system

/-- A class of exceptions that a publication to the given backend stays within. -/
structure PublishThrows (b : IBackend W) (E : Exn → Prop) : Prop where
  error : ∀ {e : Exn}, e.own = true → E e
  put_temp : ∀ {key : BackendKey} {data : Bytes} {w : W} {e : Exn},
    thrown (b.putTemp key data w) = some e → E e
  commit : ∀ {key : BackendKey} {w : W} {e : Exn}, thrown (b.commit key w) = some e → E e
  verify : ∀ {key : BackendKey} {d : Digest} {w : W} {e : Exn},
    thrown (b.verify key d w) = some e → E e
  read : ∀ {key : BackendKey} {w : W} {e : Exn}, thrown (b.read key w) = some e → E e

/-- Without a bound on the exceptions. -/
theorem publish_throws_anything {b : IBackend W} : PublishThrows b fun _ => True where
  error _ := trivial
  put_temp _ := trivial
  commit _ := trivial
  verify _ := trivial
  read _ := trivial

/-! ## The local variables -/

/-- Every chunk of the manifest has a size. -/
def PublishLocals.Known (l : PublishLocals) : Prop :=
  ∀ e ∈ l.manifestEntries, l.chunkSizes.contains e.chunkId = true

/-- A recorded chunk is known. -/
theorem known_record_chunk {p : Publishing W} (h : p.locals.Known) (slice : ChunkSlice)
    (blobId : BlobId) : (recordChunk slice blobId p).locals.Known := by
  intro e he
  rw [UnorderedMap.contains_iff]
  show ∃ size, (p.locals.chunkSizes.emplace _ _).find e.chunkId = some size
  rcases List.mem_append.mp he with hold | hnew
  · obtain ⟨size, hsize⟩ := UnorderedMap.contains_iff.mp (h e hold)
    exact ⟨size, UnorderedMap.find_emplace_of_some hsize⟩
  · rw [List.mem_singleton.mp hnew, UnorderedMap.find_emplace]
    cases hfind : p.locals.chunkSizes.find (chunkIdFromDigest slice.digest) with
    | none => exact ⟨byteSize slice.bytes, by simp⟩
    | some size => exact ⟨size, by simp⟩

/-- With the size of every chunk the validation fails only with an error of the store. -/
theorem own_failures_tile_manifest {sizes : UnorderedMap ChunkId UInt64}
    {entries : List ManifestEntry} (h : ∀ e ∈ entries, sizes.contains e.chunkId = true)
    (expected : UInt64) : OwnFailures (tileManifest sizes entries expected) := by
  induction entries generalizing expected with
  | nil => exact own_failures_ok _
  | cons entry rest ih =>
      unfold tileManifest
      split
      · exact own_failures_error rfl
      · obtain ⟨size, hsize⟩ := UnorderedMap.contains_iff.mp (h entry (by simp))
        rw [hsize]
        exact ih (fun e he => h e (by simp [he])) _

/-! ## The parts of a publication -/

section Parts

variable {I : System W → Prop} {E : Exn → Prop} {b : IBackend W}

/-- The system has the invariant and the chunk sizes are known. -/
def PublishingWith (I : System W → Prop) (p : Publishing W) : Prop := I p.system ∧ p.locals.Known

/-- A step of the store is a step of the publication. -/
theorem ends_on_system {m : Proc (System W) α} (hm : Ends I E m) :
    Ends (PublishingWith I) E (onSystem m) := by
  intro p hp
  rw [post_on_system]
  exact (hm p.system hp.1).mono (fun _ _ hs => ⟨hs, hp.2⟩) (fun _ _ hs => ⟨hs.1, hs.2, hp.2⟩)

/-- A pure computation that fails with errors of the store. -/
theorem ends_from_except_error {σ : Type} {I : σ → Prop} {x : Except Exn α}
    (herror : ∀ {e : Exn}, e.own = true → E e) (hx : OwnFailures x) :
    Ends I E (fromExcept x : Proc σ α) :=
  ends_from_except fun e he => herror (hx e he)

namespace PublishInvariant

variable (h : PublishInvariant I)

include h

theorem ends_call {m : Proc W α} (hm : ∀ {w e}, thrown (m w) = some e → E e) :
    Ends I E (callBackend m) := by
  intro s hs
  rw [post_call_backend]
  exact post_of_runs (fun _ w _ => h.called w hs)
    (fun e w hrun => ⟨hm (by rw [hrun]; rfl), h.called w hs⟩)

/-- Admission throws errors of the library only. -/
theorem ends_check_admission (herror : ∀ {e : Exn}, e.own = true → E e)
    (descriptor : CheckpointDescriptor) :
    Ends I E (checkAdmission descriptor : Proc (System W) (IBackend W)) := by
  have hthrow : ∀ {α : Type} {code : ErrorCode} {message : String},
      (Exn.error code message).own = true →
      Ends I E (throwStoreError code message : Proc (System W) α) :=
    fun hown => ends_throw (herror hown)
  have hstale : Ends I E (modifyCounters fun c =>
      { c with staleRejections := c.staleRejections + 1 } : Proc (System W) Unit) :=
    fun _ hs => h.stale hs
  refine ends_get_bind fun s _ => ends_ite (fun _ => ends_bind hstale fun _ => hthrow rfl) fun _ =>
    ends_ite (fun _ => ends_bind (fun _ hs => h.duplicate hs) fun _ => hthrow rfl) fun _ => ?_
  cases s.store.nextCheckpointGeneration.find descriptor.familyId with
  | none => exact hthrow rfl
  | some next =>
      refine ends_ite (fun _ => ends_bind hstale fun _ => hthrow rfl) fun _ =>
        ends_ite (fun _ => hthrow rfl) fun _ => ends_ite (fun _ => hthrow rfl) fun _ => ?_
      cases s.store.backends.find s.store.primaryBackendId with
      | none => exact hthrow rfl
      | some b => exact ends_pure _

theorem ends_refuse_reuse (answer : IntegrityState) :
    Ends (PublishingWith I) E (refuseReuse answer) :=
  ends_ite (fun _ => ends_bind (ends_on_system fun _ hs => h.corrupt hs) fun _ => ends_pure _)
    fun _ => ends_pure _

variable (hE : PublishThrows b E)

include hE

theorem ends_verify_object (key : BackendKey) (d : Digest) :
    Ends I E (verifyObject b key d) :=
  ends_bind (h.ends_call hE.verify) fun _ =>
    ends_bind (ends_modify fun _ hs => h.observed _ hs) fun _ => ends_pure _

/-- An attempt to reuse keeps the invariant. -/
theorem ends_try_reuse (slice : ChunkSlice) :
    Ends (PublishingWith I) E (tryReuse b slice) := by
  refine ends_get_bind fun p _ =>
    ends_bind (ends_from_except_error hE.error (DedupTable.own_failures_lookup _ _ _)) fun lookup =>
    ends_ite (fun _ => ends_bind (ends_on_system (h.ends_verify_object hE _ _)) fun answer => ?_)
      fun _ => ends_pure _
  cases p.system.store.dedup.find slice.digest with
  | none => exact h.ends_refuse_reuse _
  | some entry =>
      refine ends_ite (fun _ => ?_) fun _ => h.ends_refuse_reuse _
      exact ends_bind (ends_from_except_error hE.error (DedupTable.own_failures_add_reference _ _))
        fun _ => ends_bind (ends_on_system fun _ hs => h.shared _ hs) fun _ =>
        ends_bind (fun _ hp => hp) fun _ => ends_pure _

/-- Writing a blob keeps the invariant. -/
theorem ends_write_blob (slice : ChunkSlice) :
    Ends (PublishingWith I) E (writeBlob b slice) :=
  ends_bind (ends_on_system (h.ends_call hE.put_temp)) fun _ =>
    ends_bind (ends_on_system (h.ends_call hE.commit)) fun _ => ends_get_bind fun _ _ =>
    ends_bind (ends_from_except_error hE.error (DedupTable.own_failures_insert _ _ _ _ _ _))
    fun _ => ends_bind (ends_on_system fun _ hs => h.shared _ hs) fun _ => fun _ hp => hp

/-- One round of the per-chunk loop. -/
theorem ends_publish_slice (slice : ChunkSlice) :
    Ends (PublishingWith I) E (publishSlice b slice) := by
  refine ends_bind (ends_bind (h.ends_try_reuse hE slice) fun reused => ?_) fun blobId =>
    ends_modify fun p hp => ⟨h.recorded slice blobId hp.1, known_record_chunk hp.2 slice blobId⟩
  cases reused with
  | some blobId => exact ends_pure _
  | none => exact ends_bind (h.ends_write_blob hE slice) fun _ => ends_pure _

/-- Reading the chunks back keeps the invariant. -/
theorem ends_read_back (env : Env) (chunks : List ChunkDescriptor)
    (combined : env.hash.State) : Ends I E (readBack env b chunks combined) := by
  induction chunks generalizing combined with
  | nil => exact ends_pure _
  | cons cd rest ih =>
      refine ends_bind (h.ends_call hE.read) fun rb => ends_ite (fun _ => ?_) fun _ =>
        ends_ite (fun _ => ?_) fun _ => ih _
      · exact ends_bind (fun _ hs => h.corrupt hs) fun _ => ends_throw (hE.error rfl)
      · exact ends_bind (fun _ hs => h.corrupt hs) fun _ => ends_throw (hE.error rfl)

end PublishInvariant

end Parts

end CheckpointStore
