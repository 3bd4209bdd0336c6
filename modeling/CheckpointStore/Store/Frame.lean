import CheckpointStore.Store.Families
import CheckpointStore.Store.Gc
import CheckpointStore.Store.Looking

/-!
# Operations that leave the stored content alone

Most operations only look at backends and update bookkeeping. `SameContent R` says what they all
have in common: the dedup table, the blobs, the replicas, the placements and the checkpoint
records are the same up to integrity, freshness and the difference between live lifecycle states,
and the world has changed by `R`. `SameRegistry` says the same of families, policies, authority
and files. `Quiet R` is both; it is shown here for every operation but `publish`, `gc_run`,
reopening and the few that write to the registry, so an invariant has only those to consider.
-/

namespace CheckpointStore

open Foundation Foundation.Procedure

variable {W α β : Type}

/-! ## The content of a record -/

/-- What verification, restore, retirement and authority changes leave alone of a lifecycle:
a committed checkpoint may be retired, and one that was being written may fail. -/
def CheckpointLifecycle.content : CheckpointLifecycle → CheckpointLifecycle
  | .retired => .committed
  | .creating | .writing => .failed
  | lifecycle => lifecycle

/-- Whether a checkpoint is eligible shows in the content of its lifecycle. -/
theorem CheckpointLifecycle.content_eligible {l l' : CheckpointLifecycle}
    (h : l'.content = l.content) (hl : l ≠ .gcEligible) : l' ≠ .gcEligible := by
  rintro rfl
  revert h hl
  cases l <;> simp [CheckpointLifecycle.content]

/-- A chunk up to its integrity. -/
def ChunkDescriptor.content (c : ChunkDescriptor) : ChunkDescriptor :=
  { c with integrity := .unknown }

/-- A blob up to its integrity and freshness. -/
def BlobDescriptor.content (b : BlobDescriptor) : BlobDescriptor :=
  { b with integrity := .unknown, freshness := .unknown }

/-- A replica up to its integrity and role. -/
def ReplicaDescriptor.content (r : ReplicaDescriptor) : ReplicaDescriptor :=
  { r with integrity := .unknown, role := .authoritative }

/-- A record up to what looking may change. -/
def CheckpointRecord.content (r : CheckpointRecord) : CheckpointRecord :=
  { r with
    chunks := r.chunks.map ChunkDescriptor.content
    replicaSet := { r.replicaSet with durabilityState := .healthy }
    lifecycle := r.lifecycle.content
    integrity := .unknown }

/-- A backend whose looking calls change the world by `R` at most. -/
structure Looks (R : W → W → Prop) (b : IBackend W) : Prop where
  read : ∀ key, Keeps R (b.read key)
  exists_key : ∀ key, Keeps R (b.existsKey key)
  verify : ∀ key d, Keeps R (b.verify key d)
  health : Keeps R b.health

/-- Every registered backend only looks. -/
def AllLook (R : W → W → Prop) (s : System W) : Prop :=
  ∀ id b, s.store.backends.find id = some b → Looks R b

/-- The stored content is the same. -/
structure SameContent (R : W → W → Prop) (s s' : System W) : Prop where
  world : R s.world s'.world
  drawn : ∃ k, s'.store.nextIdCounter = s.store.nextIdCounter + UInt64.ofNat k ∧
    s'.idsDrawn = s.idsDrawn + k
  trace : ∃ more, s'.trace = s.trace ++ more
  chunkSize : s'.store.options.chunkSize = s.store.options.chunkSize
  primary : s'.store.primaryBackendId = s.store.primaryBackendId
  backends : ∀ id, s'.store.backends.find id = s.store.backends.find id
  dedup : ∀ d, s'.store.dedup.find d = s.store.dedup.find d
  checkpoints : ∀ id, (s'.store.checkpoints.find id).map CheckpointRecord.content =
    (s.store.checkpoints.find id).map CheckpointRecord.content
  blobs : ∀ id, (s'.store.blobs.find id).map BlobDescriptor.content =
    (s.store.blobs.find id).map BlobDescriptor.content
  replicas : ∀ id, (s'.store.replicas.find id).map ReplicaDescriptor.content =
    (s.store.replicas.find id).map ReplicaDescriptor.content
  placements : ∀ id, s'.store.placements.find id = s.store.placements.find id

/-- Families, policies, authority and files are the same. -/
structure SameRegistry (s s' : System W) : Prop where
  families : ∀ id, s'.store.families.find id = s.store.families.find id
  nextGenerations : ∀ id, s'.store.nextCheckpointGeneration.find id =
    s.store.nextCheckpointGeneration.find id
  nextFamilyId : s'.store.nextFamilyId = s.store.nextFamilyId
  retention : ∀ id, s'.store.retention.find id = s.store.retention.find id
  bootId : s'.store.options.bootId = s.store.options.bootId
  statePath : s'.store.options.statePath = s.store.options.statePath
  coordinatorEpoch : s'.store.coordinatorEpoch = s.store.coordinatorEpoch
  files : s'.files = s.files

/-- Neither the stored content nor the registry has changed. -/
structure Quiet (R : W → W → Prop) (s s' : System W) : Prop extends
    SameContent R s s', SameRegistry s s'

section Quiet

variable {R : W → W → Prop}

theorem SameContent.refl [Std.Refl R] (s : System W) : SameContent R s s where
  world := refl_of R s.world
  drawn := ⟨0, by simp⟩
  trace := ⟨[], by simp⟩
  chunkSize := rfl
  primary := rfl
  backends _ := rfl
  dedup _ := rfl
  checkpoints _ := rfl
  blobs _ := rfl
  replicas _ := rfl
  placements _ := rfl

/-- Content that stays the same twice stays the same. -/
theorem SameContent.trans [IsTrans W R] {s s' s'' : System W} (h : SameContent R s s')
    (h' : SameContent R s' s'') : SameContent R s s'' where
  world := trans_of R h.world h'.world
  drawn := by
    obtain ⟨k, hcounter, hdrawn⟩ := h.drawn
    obtain ⟨k', hcounter', hdrawn'⟩ := h'.drawn
    refine ⟨k + k', ?_, by rw [hdrawn', hdrawn, Nat.add_assoc]⟩
    rw [hcounter', hcounter, UInt64.ofNat_add, UInt64.add_assoc]
  trace := by
    obtain ⟨more, htrace⟩ := h.trace
    obtain ⟨more', htrace'⟩ := h'.trace
    exact ⟨more ++ more', by rw [htrace', htrace, List.append_assoc]⟩
  chunkSize := h'.chunkSize.trans h.chunkSize
  primary := h'.primary.trans h.primary
  backends id := (h'.backends id).trans (h.backends id)
  dedup d := (h'.dedup d).trans (h.dedup d)
  checkpoints id := (h'.checkpoints id).trans (h.checkpoints id)
  blobs id := (h'.blobs id).trans (h.blobs id)
  replicas id := (h'.replicas id).trans (h.replicas id)
  placements id := (h'.placements id).trans (h.placements id)

theorem SameRegistry.refl (s : System W) : SameRegistry s s :=
  ⟨fun _ => rfl, fun _ => rfl, rfl, fun _ => rfl, rfl, rfl, rfl, rfl⟩

theorem SameRegistry.trans {s s' s'' : System W} (h : SameRegistry s s')
    (h' : SameRegistry s' s'') : SameRegistry s s'' where
  families id := (h'.families id).trans (h.families id)
  nextGenerations id := (h'.nextGenerations id).trans (h.nextGenerations id)
  nextFamilyId := h'.nextFamilyId.trans h.nextFamilyId
  retention id := (h'.retention id).trans (h.retention id)
  bootId := h'.bootId.trans h.bootId
  statePath := h'.statePath.trans h.statePath
  coordinatorEpoch := h'.coordinatorEpoch.trans h.coordinatorEpoch
  files := h'.files.trans h.files

theorem Quiet.refl [Std.Refl R] (s : System W) : Quiet R s s :=
  { SameContent.refl s, SameRegistry.refl s with }

/-- Two quiet changes are one. -/
theorem Quiet.trans [IsTrans W R] {s s' s'' : System W} (h : Quiet R s s')
    (h' : Quiet R s' s'') : Quiet R s s'' :=
  { h.toSameContent.trans h'.toSameContent, h.toSameRegistry.trans h'.toSameRegistry with }

/-- The backends registered are the same, so they only look. -/
theorem Quiet.all_look {s s' : System W} (h : Quiet R s s') (hlook : AllLook R s) :
    AllLook R s' := by
  intro id b hb
  exact hlook id b ((h.backends id).symm.trans hb)

/-- However `m` ends, the content is the same, provided that the backends only look. -/
def Quietly (R : W → W → Prop) (m : Proc (System W) α) : Prop :=
  ∀ s, AllLook R s → Post m s (fun _ s' => Quiet R s s') (fun _ s' => Quiet R s s')

/-- What is done with the result does not matter. -/
theorem quietly_map {m : Proc (System W) α} (h : Quietly R m) (f : α → β) :
    Quietly R (f <$> m) := by
  intro s hlook
  rw [post_map]
  exact h s hlook

end Quiet

/-! ## Quiet updates -/

section Updates

variable {K V C : Type} [DecidableEq K]

/-- Updating one entry keeps what every update of a value keeps. -/
theorem map_find_modify {content : V → C} {m : UnorderedMap K V} {k : K} {f : V → V}
    (h : ∀ v, m.find k = some v → content (f v) = content v) (k' : K) :
    ((m.modify k f).find k').map content = (m.find k').map content := by
  rw [UnorderedMap.find_modify]
  by_cases hk : k' = k
  · subst hk
    cases hfind : m.find k' with
    | none => simp
    | some v => simp [h v hfind]
  · simp [hk]

/-- Updating every entry keeps what every update keeps. -/
theorem map_find_map_values {content : V → C} {m : UnorderedMap K V} {f : K → V → V}
    (h : ∀ k v, content (f k v) = content v) (k : K) :
    ((m.mapValues f).find k).map content = (m.find k).map content := by
  rw [UnorderedMap.find_map_values, Option.map_map]
  cases m.find k with
  | none => rfl
  | some v => simp [h]

end Updates

section Primitives

variable {R : W → W → Prop} [Std.Refl R]

/-- A quarantine is quiet: it changes integrity, role and durability. -/
theorem quiet_quarantine (id : CheckpointId) (rid : ReplicaId) (rd : ReplicaDescriptor)
    (s : System W) : Quiet R s { s with store := quarantine id rid rd s.store } := by
  unfold quarantine
  split
  · exact { Quiet.refl s with
      checkpoints := map_find_modify fun _ _ => rfl
      replicas := map_find_modify fun _ _ => rfl }
  · exact { Quiet.refl s with }

/-- So is a new verdict on a chunk. -/
theorem content_set_chunk_integrity (chunk : ChunkId) (integrity : IntegrityState)
    (chunks : List ChunkDescriptor) :
    (setChunkIntegrity chunk integrity chunks).map ChunkDescriptor.content =
      chunks.map ChunkDescriptor.content := by
  induction chunks with
  | nil => rfl
  | cons cd rest ih =>
      unfold setChunkIntegrity
      split
      · rfl
      · rw [List.map_cons, List.map_cons, ih]

end Primitives

/-! ## Quiet operations -/

section Operations

variable {R : W → W → Prop} [Std.Refl R]

/-- Making a descriptor only draws an identity. -/
theorem quietly_make_full_descriptor (env : Env) (family : CheckpointFamilyId) (owner : OwnerId)
    (logicalSize : UInt64) (durability : DurabilityClass) :
    Quietly R (makeFullDescriptor env family owner logicalSize durability :
      Proc (System W) CheckpointDescriptor) := by
  intro s _
  refine (post_make_full_descriptor env family owner logicalSize durability s).mono
    (fun _ s' hs' => ?_) (fun _ s' hs' => ?_)
  · obtain ⟨_, rfl⟩ := hs'
    exact { Quiet.refl s with drawn := ⟨1, rfl, rfl⟩ }
  · rw [hs']
    exact Quiet.refl s

/-- Resetting the authority fails what was being written, which the content does not show. -/
theorem quietly_reset_authority : Quietly R (resetAuthority : Proc (System W) Unit) := by
  intro s _
  refine { Quiet.refl s with
    checkpoints := map_find_map_values fun _ rec => ?_
    blobs := map_find_map_values fun _ b => rfl }
  unfold CheckpointRecord.authorityReset
  split
  · next h =>
      rcases h with h | h
      · simp only [CheckpointRecord.content, h]; rfl
      · simp only [CheckpointRecord.content, h]; rfl
  · rfl

/-- Retiring changes the lifecycle only. -/
theorem quietly_retire (env : Env) (id : CheckpointId) :
    Quietly R (retire env id : Proc (System W) Unit) := by
  intro s _
  refine (post_retire env id s).mono (fun _ s' hs' => ?_) (by rintro _ _ rfl; exact Quiet.refl _)
  cases hs' with
  | @intro rec _ _ hfind hcommitted =>
      refine { Quiet.refl s with checkpoints := map_find_modify fun rec' hrec' => ?_ }
      have hsame : rec' = rec := Option.some.inj (hrec'.symm.trans hfind)
      simp only [CheckpointRecord.content, hsame, hcommitted]
      rfl

/-- A plan only draws an identity. -/
theorem quietly_gc_plan (env : Env) : Quietly R (gcPlan env : Proc (System W) GcRunResult) := by
  intro s _
  refine (post_gc_plan env s).mono (fun _ s' hs' => ?_) (fun _ _ h => h.elim)
  cases hs' with
  | intro => exact { Quiet.refl s with drawn := ⟨1, rfl, rfl⟩ }

variable [IsTrans W R]

/-- What the operations that look do to the state is quiet. -/
theorem look_invariant_quiet {s₀ : System W} (hlook : AllLook R s₀) :
    LookInvariant fun s => Quiet R s₀ s where
  called hs hs₁ hb hcall := by
    have hlooks : Looks R _ := hs₁.all_look hlook _ _ hb
    refine hs.trans { Quiet.refl (R := R) _ with world := ?_ }
    cases hcall with
    | read key => exact hlooks.read key _
    | existsKey key => exact hlooks.exists_key key _
    | verify key d => exact hlooks.verify key d _
    | health => exact hlooks.health _
  observed o hs := hs.trans { Quiet.refl (R := R) _ with trace := ⟨[o], rfl⟩ }
  drawn hs := hs.trans { Quiet.refl (R := R) _ with drawn := ⟨1, rfl, rfl⟩ }
  planned plan hs := hs.trans { Quiet.refl (R := R) _ with }
  judged id integrity hs :=
    hs.trans { Quiet.refl (R := R) _ with checkpoints := map_find_modify fun _ _ => rfl }
  judgedChunk id chunk integrity hs := by
    refine hs.trans
      { Quiet.refl (R := R) _ with checkpoints := map_find_modify fun rec _ => ?_ }
    simp only [CheckpointRecord.content, content_set_chunk_integrity]
  failed hs := hs.trans { Quiet.refl (R := R) _ with }
  restored id evidence bytes hs := hs.trans { Quiet.refl (R := R) _ with }

theorem quietly_verify_checkpoint (env : Env) (id : CheckpointId) :
    Quietly R (verifyCheckpoint env id : Proc (System W) IntegrityState) :=
  fun s hlook => (look_invariant_quiet hlook).preserves_verify_checkpoint env id s (Quiet.refl s)

theorem quietly_verify_chunk (id : CheckpointId) (chunk : ChunkId) :
    Quietly R (verifyChunk id chunk : Proc (System W) IntegrityState) :=
  fun s hlook => (look_invariant_quiet hlook).preserves_verify_chunk id chunk s (Quiet.refl s)

theorem quietly_plan_restore (id : CheckpointId) (priority : RestorePriority) :
    Quietly R (planRestore id priority : Proc (System W) RestorePlan) :=
  fun s hlook => (look_invariant_quiet hlook).preserves_plan_restore id priority s (Quiet.refl s)

/-- A restore is quiet, whether it succeeds or not. -/
theorem quietly_restore (env : Env) (restoreId : RestoreId) (id : CheckpointId) :
    Quietly R (restore env restoreId id : Proc (System W) RestoredCheckpoint) :=
  fun s hlook => (look_invariant_quiet hlook).preserves_restore (P := fun _ => True)
    (fun rd hs _ => hs.trans (quiet_quarantine id _ rd _)) env restoreId
    (fun _ _ _ _ _ _ => trivial) s (Quiet.refl s)

end Operations

end CheckpointStore
