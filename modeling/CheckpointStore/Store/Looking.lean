import CheckpointStore.Store.Restore

/-!
# Operations that look

Verification and restore call backends and then write down what they found. `LookInvariant I` lists
the elementary changes they make to the state and says that each of them keeps `I`; then so do
the operations (`preserves_*`). Restoring may in addition quarantine a replica, which is left to a
condition on the replicas it can meet, the candidates of the checkpoint's chunks. The lemmas
`ends_*` say beside it which exceptions are thrown: those of a class that `LookThrows` describes.
-/

namespace CheckpointStore

open Foundation Foundation.Procedure

variable {W α : Type}

/-- The calls by which the store looks at a backend. -/
inductive LookingCall (b : IBackend W) : {α : Type} → Proc W α → Prop where
  | read (key : BackendKey) : LookingCall b (b.read key)
  | existsKey (key : BackendKey) : LookingCall b (b.existsKey key)
  | verify (key : BackendKey) (d : Digest) : LookingCall b (b.verify key d)
  | health : LookingCall b b.health

/-- A property that no elementary change of an operation that looks destroys. -/
structure LookInvariant (I : System W → Prop) : Prop where
  /-- A call of a backend that is registered. -/
  called : ∀ {α : Type} {s s₁ : System W} {id : StorageBackendId} {b : IBackend W} {m : Proc W α},
    I s → I s₁ → s₁.store.backends.find id = some b → LookingCall b m →
    I { s with world := finalState (m s.world) }
  observed : ∀ {s : System W} (o : Observation), I s → I { s with trace := s.trace ++ [o] }
  drawn : ∀ {s : System W}, I s → I
    { s with
      store := { s.store with nextIdCounter := s.store.nextIdCounter + 1 }
      idsDrawn := s.idsDrawn + 1 }
  planned : ∀ {s : System W} (plan : RestorePlan), I s → I
    { s with store := { s.store with restorePlans := s.store.restorePlans.assign plan.id plan } }
  judged : ∀ {s : System W} (id : CheckpointId) (integrity : IntegrityState), I s →
    I { s with store := setIntegrity id integrity s.store }
  judgedChunk : ∀ {s : System W} (id : CheckpointId) (chunk : ChunkId)
    (integrity : IntegrityState), I s → I
    { s with store := { s.store with
      checkpoints := s.store.checkpoints.modify id fun rec =>
        { rec with chunks := setChunkIntegrity chunk integrity rec.chunks } } }
  failed : ∀ {s : System W}, I s → I { s with store := countIntegrityFailure s.store }
  restored : ∀ {s : System W} (id : CheckpointId) (evidence : RestoreEvidence) (bytes : UInt64),
    I s → I
    { s with store := { s.store with
      restoreEvidence := s.store.restoreEvidence.assign id evidence
      counters := { s.store.counters with
        restoredBytes := s.store.counters.restoredBytes + bytes } } }

/-- Invariants can be combined. -/
theorem LookInvariant.and {I J : System W → Prop} (h : LookInvariant I) (h' : LookInvariant J) :
    LookInvariant fun s => I s ∧ J s where
  called hs hs₁ hb hcall := ⟨h.called hs.1 hs₁.1 hb hcall, h'.called hs.2 hs₁.2 hb hcall⟩
  observed o hs := ⟨h.observed o hs.1, h'.observed o hs.2⟩
  drawn hs := ⟨h.drawn hs.1, h'.drawn hs.2⟩
  planned plan hs := ⟨h.planned plan hs.1, h'.planned plan hs.2⟩
  judged id integrity hs := ⟨h.judged id integrity hs.1, h'.judged id integrity hs.2⟩
  judgedChunk id chunk integrity hs :=
    ⟨h.judgedChunk id chunk integrity hs.1, h'.judgedChunk id chunk integrity hs.2⟩
  failed hs := ⟨h.failed hs.1, h'.failed hs.2⟩
  restored id evidence bytes hs :=
    ⟨h.restored id evidence bytes hs.1, h'.restored id evidence bytes hs.2⟩

/-- The exceptions looking may throw: the errors of the store, and what the backends throw. -/
structure LookThrows (I : System W → Prop) (E : Exn → Prop) : Prop where
  error : ∀ {e : Exn}, e.own = true → E e
  called : ∀ {α : Type} {s : System W} {id : StorageBackendId} {b : IBackend W} {m : Proc W α}
    {w : W} {e : Exn}, I s → s.store.backends.find id = some b → LookingCall b m →
    thrown (m w) = some e → E e

/-- Without a bound on the exceptions. -/
theorem look_throws_anything {I : System W → Prop} : LookThrows I fun _ => True where
  error _ := trivial
  called _ _ _ _ := trivial

namespace LookInvariant

/-- The backend that `verify_checkpoint` picks is registered. -/
theorem pick_underlay_registered {store : Store W} {rids : List ReplicaId} {b : IBackend W}
    {start : Option (IBackend W)} (hpick : pickUnderlay store rids start = some b) :
    start = some b ∨ ∃ id, store.backends.find id = some b := by
  induction rids generalizing start with
  | nil => exact Or.inl hpick
  | cons rid rest ih =>
      unfold pickUnderlay at hpick
      split at hpick
      · exact ih hpick
      · next rd hreplica =>
          split at hpick
          · exact ih hpick
          · next b' hbackend =>
              split at hpick
              · cases hpick
                exact Or.inr ⟨_, hbackend⟩
              · rcases ih hpick with hstart | hfound
                · cases hstart
                  exact Or.inr ⟨_, hbackend⟩
                · exact Or.inr hfound

variable {I : System W → Prop} (h : LookInvariant I)

include h

section Ends

variable {E : Exn → Prop}

/-- A verdict keeps the invariant. -/
theorem ends_judge (id : CheckpointId) (integrity : IntegrityState) :
    Ends I E (modifyStore (setIntegrity id integrity)) :=
  ends_modify fun _ hs => h.judged id integrity hs

/-- So does a condemnation. -/
theorem ends_condemn (id : CheckpointId) (verdict : IntegrityState) :
    Ends I E (condemn id verdict) :=
  ends_bind (ends_modify fun _ hs => h.failed (h.judged id verdict hs)) fun _ => ends_pure _

variable (hE : LookThrows I E)

include hE

/-- A call of a registered backend keeps the invariant. -/
theorem ends_call {b : IBackend W} {s₁ : System W} {id : StorageBackendId} (hs₁ : I s₁)
    (hb : s₁.store.backends.find id = some b) {m : Proc W α} (hcall : LookingCall b m) :
    Ends I E (callBackend m) := by
  intro s hs
  have hcalled := h.called hs hs₁ hb hcall
  have hthrown := @hE.called α s₁ id b m s.world
  rw [post_call_backend]
  refine post_of_runs (fun a w hrun => ?_) (fun e w hrun => ?_)
  · rwa [hrun] at hcalled
  · rw [hrun] at hcalled hthrown
    exact ⟨hthrown hs₁ hb hcall rfl, hcalled⟩

theorem ends_verify_object {b : IBackend W} {s₁ : System W} {id : StorageBackendId}
    (hs₁ : I s₁) (hb : s₁.store.backends.find id = some b) (key : BackendKey) (d : Digest) :
    Ends I E (verifyObject b key d) :=
  ends_bind (h.ends_call hE hs₁ hb (.verify key d)) fun _ =>
    ends_bind (ends_modify fun _ hs => h.observed _ hs) fun _ => ends_pure _

/-! ## Verification -/

/-- Verifying chunk after chunk keeps the invariant. -/
theorem ends_verify_chunks (env : Env) {b : IBackend W} {s₁ : System W}
    {bid : StorageBackendId} (hs₁ : I s₁) (hb : s₁.store.backends.find bid = some b)
    (chunks : List ChunkDescriptor) (combined : env.hash.State) :
    Ends I E (verifyChunks env b chunks combined) := by
  induction chunks generalizing combined with
  | nil => exact ends_pure _
  | cons cd rest ih =>
      refine ends_bind (h.ends_call hE hs₁ hb (.existsKey _)) fun _ =>
        ends_ite (fun _ => ends_pure _) fun _ => ?_
      refine ends_bind (h.ends_verify_object hE hs₁ hb _ _) fun _ =>
        ends_ite (fun _ => ends_pure _) fun _ => ?_
      exact ends_bind (h.ends_call hE hs₁ hb (.read _)) fun _ => ih _

/-- Verifying a checkpoint keeps the invariant. -/
theorem ends_verify_checkpoint (env : Env) (id : CheckpointId) :
    Ends I E (verifyCheckpoint env id) := by
  refine ends_get_bind fun s hs => ?_
  cases s.store.checkpoints.find id with
  | none => exact ends_throw (hE.error rfl)
  | some rec =>
      simp only
      cases hpick : pickUnderlay s.store rec.replicaSet.replicas none with
      | none => exact h.ends_condemn _ _
      | some b =>
          obtain ⟨bid, hb⟩ := (pick_underlay_registered hpick).resolve_left (by simp)
          refine ends_bind (h.ends_verify_chunks hE env hs hb _ _) fun verdict => ?_
          cases verdict with
          | inl integrity => exact h.ends_condemn _ _
          | inr combined =>
              exact ends_ite (fun _ => h.ends_condemn _ _) fun _ =>
                ends_bind (h.ends_judge _ _) fun _ => ends_pure _

/-! ## Restoring -/

theorem ends_read_source {b : IBackend W} {s₁ : System W} {bid : StorageBackendId}
    (hs₁ : I s₁) (hb : s₁.store.backends.find bid = some b) (key : BackendKey) :
    Ends I E (readSource b key) := by
  refine ends_try_catch
    (ends_bind (h.ends_call hE hs₁ hb (.read key)) fun _ => ends_pure _) fun e he => ?_
  cases e with
  | error code message => exact ends_pure _
  | foreign => exact ends_throw he

section Restore

variable {id : CheckpointId} {P : ReplicaId → Prop}
  (hquarantine : ∀ {s : System W} {rid : ReplicaId} (rd : ReplicaDescriptor), I s → P rid →
    I { s with store := quarantine id rid rd s.store })

include hquarantine

/-- Trying source after source keeps the invariant. -/
theorem ends_restore_chunk (env : Env) (cd : ChunkDescriptor) {rids : List ReplicaId}
    (hrids : ∀ rid ∈ rids, P rid) (evidence : RestoreEvidence) :
    Ends I E (restoreChunk env id cd rids evidence) := by
  induction rids generalizing evidence with
  | nil => exact ends_pure _
  | cons rid rest ih =>
      have hrest := ih fun rid' hrid' => hrids rid' (List.mem_cons_of_mem _ hrid')
      refine ends_get_bind fun s hs => ?_
      cases s.store.replicas.find rid with
      | none => exact hrest _
      | some rd =>
          simp only
          cases hb : s.store.backends.find rd.backendId with
          | none => exact hrest _
          | some b =>
              refine ends_bind (h.ends_call hE hs hb .health) fun _ =>
                ends_ite (fun _ => hrest _) fun _ =>
                  ends_bind (h.ends_read_source hE hs hb _) fun attempt => ?_
              cases attempt with
              | none => exact hrest _
              | some rb =>
                  exact ends_ite (fun _ => ends_pure _) fun _ => ends_bind
                    (ends_modify fun _ hs => hquarantine rd hs (hrids rid (by simp)))
                    fun _ => hrest _

/-- The loop throws what looking may throw, and an exception of another kind for a chunk that
memory has no room for. -/
theorem ends_restore_chunks (hmemory : E .foreign) (env : Env) (limit : Nat)
    {rec : CheckpointRecord}
    (hcandidates : ∀ {s : System W} {cd : ChunkDescriptor}, I s → cd ∈ rec.chunks →
      ∀ rid ∈ candidates s.store rec cd, P rid) (entries : List ManifestEntry)
    (progress : RestoreProgress env) :
    Ends I E (restoreChunks env limit id rec entries progress) := by
  induction entries generalizing progress with
  | nil => exact ends_pure _
  | cons entry rest ih =>
      unfold restoreChunks
      cases hfind : rec.chunks.find? (fun cd => cd.id = entry.chunkId) with
      | none => exact ends_throw (hE.error rfl)
      | some cd =>
          refine ends_get_bind fun s hs => ends_bind
            (h.ends_restore_chunk hE hquarantine env cd
              (hcandidates hs (List.mem_of_find?_eq_some hfind)) _) fun found => ?_
          cases found.1 with
          | none => exact ends_bind (h.ends_judge _ _) fun _ => ends_throw (hE.error rfl)
          | some rb => exact ends_ite (fun _ => ends_throw hmemory) fun _ => ih _

/-- Restoring throws what looking may throw, and an exception of another kind for a checkpoint
that memory has no room for. -/
theorem ends_restore (hmemory : E .foreign) (env : Env) (restoreId : RestoreId)
    (hcandidates : ∀ {s s₁ : System W} {rec : CheckpointRecord} {cd : ChunkDescriptor}, I s₁ →
      s₁.store.checkpoints.find id = some rec → I s → cd ∈ rec.chunks →
      ∀ rid ∈ candidates s.store rec cd, P rid) :
    Ends I E (restore env restoreId id) := by
  refine ends_get_bind fun s hs => ?_
  cases hfind : s.store.checkpoints.find id with
  | none => exact ends_throw (hE.error rfl)
  | some rec =>
      refine ends_ite (fun _ => ends_throw (hE.error rfl)) fun _ =>
        ends_ite (fun _ => ends_throw hmemory) fun _ => ends_bind
          (h.ends_restore_chunks hE hquarantine hmemory env _
            (fun hs' => hcandidates hs hfind hs') _ _) fun progress => ?_
      unfold finishRestore
      refine ends_ite (fun _ => ?_) fun _ => ?_
      · exact ends_bind (ends_modify fun _ hs => h.failed (h.judged _ _ hs))
          fun _ => ends_throw (hE.error rfl)
      · exact ends_bind (ends_modify fun _ hs => h.restored _ _ _ (h.judged id .verified hs))
          fun _ => ends_pure _

end Restore

end Ends

/-! ## Preservation -/

theorem preserves_verify_checkpoint (env : Env) (id : CheckpointId) :
    Preserves I (verifyCheckpoint env id) :=
  (h.ends_verify_checkpoint look_throws_anything env id).preserves

/-- Verifying a chunk keeps the invariant. -/
theorem preserves_verify_chunk (id : CheckpointId) (chunk : ChunkId) :
    Preserves I (verifyChunk id chunk) := by
  refine preserves_get_bind fun s hs => ?_
  cases s.store.checkpoints.find id with
  | none => exact preserves_throw _
  | some rec =>
      simp only
      cases rec.chunks.find? (fun cd => cd.id = chunk) with
      | none => exact preserves_throw _
      | some cd =>
          simp only
          cases s.store.blobs.find cd.blobId with
          | none => exact preserves_pure _
          | some bd =>
              simp only
              cases hfirst : firstUnderlay s.store bd.replicas with
              | none => exact preserves_pure _
              | some b =>
                  obtain ⟨rid, _, hrid⟩ := List.exists_of_findSome?_eq_some hfirst
                  obtain ⟨rd, _, hb⟩ := Option.bind_eq_some_iff.mp hrid
                  exact preserves_bind
                    (h.ends_verify_object look_throws_anything hs hb _ _).preserves fun v =>
                    preserves_bind (preserves_modify fun _ hs => h.judgedChunk id chunk v hs)
                      fun _ => preserves_pure _

/-- Planning a restore keeps the invariant. -/
theorem preserves_plan_restore (id : CheckpointId) (priority : RestorePriority) :
    Preserves I (planRestore id priority) := by
  have hdraw : Preserves I (nextId : Proc (System W) UInt64) := fun _ hs => h.drawn hs
  refine preserves_get_bind fun s _ => ?_
  cases s.store.checkpoints.find id with
  | none => exact preserves_throw _
  | some rec =>
      exact preserves_bind hdraw fun _ => preserves_bind hdraw fun _ =>
        preserves_bind (preserves_modify fun _ hs => h.planned _ hs) fun _ => preserves_pure _

/-- A restore keeps the invariant if its quarantines do. -/
theorem preserves_restore {id : CheckpointId} {P : ReplicaId → Prop}
    (hquarantine : ∀ {s : System W} {rid : ReplicaId} (rd : ReplicaDescriptor), I s → P rid →
      I { s with store := quarantine id rid rd s.store })
    (env : Env) (restoreId : RestoreId)
    (hcandidates : ∀ {s s₁ : System W} {rec : CheckpointRecord} {cd : ChunkDescriptor}, I s₁ →
      s₁.store.checkpoints.find id = some rec → I s → cd ∈ rec.chunks →
      ∀ rid ∈ candidates s.store rec cd, P rid) :
    Preserves I (restore env restoreId id) :=
  (h.ends_restore look_throws_anything hquarantine trivial env restoreId hcandidates).preserves

end LookInvariant

end CheckpointStore
