import CheckpointStore.Runs.Routine
import CheckpointStore.Safety.Restorable

/-!
# The recorded durability state

`publish` writes the durability state of a checkpoint down and `restore` downgrades it, each on its
own account; `evaluate_replica_durability` computes it from the replicas. The two agree because a
checkpoint has one replica, which is its own and the only one that its chunks are placed in
(`Evaluated`), as long as identities are not handed out twice.
-/

namespace CheckpointStore

open Foundation Foundation.Procedure Foundation.UnorderedMap

variable {W : Type}

/-! ## One replica for each checkpoint -/

/-- What a record says about replicas. -/
structure Replication where
  required : UInt64
  members : List ReplicaId
  state : ReplicaDurabilityState
  placements : List PlacementId

/-- What a record says about its replicas. -/
def CheckpointRecord.replication (rec : CheckpointRecord) : Replication where
  required := rec.descriptor.requiredReplicaCount
  members := rec.replicaSet.replicas
  state := rec.replicaSet.durabilityState
  placements := rec.chunks.flatMap ChunkDescriptor.placements

/-- The same by checkpoint. -/
def Store.replication (store : Store W) (id : CheckpointId) : Option Replication :=
  (store.checkpoints.find id).map CheckpointRecord.replication

/-- The recorded state for a single replica of the given integrity. -/
inductive Judged (required : UInt64) : IntegrityState → ReplicaDurabilityState → Prop where
  | verified : Judged required .verified (if required ≤ 1 then .healthy else .underReplicated)
  | corrupt : Judged required .corrupt .degraded

/-- This is what the evaluator computes. -/
theorem Judged.evaluated {required : UInt64} {rd : ReplicaDescriptor}
    {state : ReplicaDurabilityState} (h : Judged required rd.integrity state)
    (hrequired : 1 ≤ required) : state = evaluateReplicaDurability required [rd] := by
  unfold evaluateReplicaDurability
  generalize hintegrity : rd.integrity = integrity at h
  cases h with
  | verified => simp [hintegrity]
  | corrupt =>
      have hnone : ¬ required ≤ 0 := fun h => absurd (UInt64.le_trans hrequired h) (by decide)
      simp [hintegrity, hnone]

/-- A checkpoint has the replica `rid` and no other, in which all its chunks are placed. -/
structure Replicated (store : Store W) (r : Replication) (rid : ReplicaId) : Prop where
  members : r.members = [rid]
  judged : ∃ rd, store.replicas.find rid = some rd ∧ Judged r.required rd.integrity r.state
  placed : ∀ pid ∈ r.placements, ∃ pd, store.placements.find pid = some pd ∧ pd.replicaId = rid

/-- Every checkpoint has a replica of its own. -/
structure Evaluated (store : Store W) : Prop where
  replicated : ∀ id r, store.replication id = some r → ∃ rid, Replicated store r rid
  apart : ∀ id id' r r', store.replication id = some r → store.replication id' = some r' →
    r.members = r'.members → id = id'

/-- More replicas and placements do no harm. -/
theorem Replicated.grow {store store' : Store W} {r : Replication} {rid : ReplicaId}
    (h : Replicated store r rid)
    (hreplicas : ∀ rid rd, store.replicas.find rid = some rd → store'.replicas.find rid = some rd)
    (hplacements : ∀ pid pd, store.placements.find pid = some pd →
      store'.placements.find pid = some pd) : Replicated store' r rid where
  members := h.members
  judged := by
    obtain ⟨rd, hrd, hjudged⟩ := h.judged
    exact ⟨rd, hreplicas rid rd hrd, hjudged⟩
  placed pid hpid := by
    obtain ⟨pd, hpd, hreplica⟩ := h.placed pid hpid
    exact ⟨pd, hplacements pid pd hpd, hreplica⟩

/-- New replicas and placements change no evaluation. -/
theorem Evaluated.grow {store store' : Store W} (h : Evaluated store)
    (hrecords : ∀ id, store'.replication id = store.replication id)
    (hreplicas : ∀ rid rd, store.replicas.find rid = some rd → store'.replicas.find rid = some rd)
    (hplacements : ∀ pid pd, store.placements.find pid = some pd →
      store'.placements.find pid = some pd) : Evaluated store' where
  replicated id r hr := by
    rw [hrecords] at hr
    obtain ⟨rid, hreplicated⟩ := h.replicated id r hr
    exact ⟨rid, hreplicated.grow hreplicas hplacements⟩
  apart id id' r r' hr hr' := by
    rw [hrecords] at hr hr'
    exact h.apart id id' r r' hr hr'

/-- Nor does a change of the records in other respects. -/
theorem Evaluated.of_records {store store' : Store W} (h : Evaluated store)
    (hrecords : ∀ id, (store'.checkpoints.find id).map CheckpointRecord.replication =
      (store.checkpoints.find id).map CheckpointRecord.replication)
    (hreplicas : store'.replicas = store.replicas)
    (hplacements : store'.placements = store.placements) : Evaluated store' :=
  h.grow hrecords (fun _ _ hrd => by rw [hreplicas]; exact hrd)
    fun _ _ hpd => by rw [hplacements]; exact hpd

/-- A replica that is not registered belongs to no checkpoint. -/
theorem Evaluated.members_ne {store : Store W} (h : Evaluated store) {rid : ReplicaId}
    (hfresh : store.replicas.find rid = none) {id : CheckpointId} {r : Replication}
    (hr : store.replication id = some r) : r.members ≠ [rid] := by
  intro heq
  obtain ⟨rid', hmembers, ⟨rd, hrd, _⟩, _⟩ := h.replicated id r hr
  rw [heq, List.singleton_inj] at hmembers
  rw [← hmembers, hfresh] at hrd
  cases hrd

/-! ## Routine steps, retirement and collection -/

theorem placements_set_chunk_integrity (chunk : ChunkId) (integrity : IntegrityState)
    (chunks : List ChunkDescriptor) :
    (setChunkIntegrity chunk integrity chunks).flatMap ChunkDescriptor.placements =
      chunks.flatMap ChunkDescriptor.placements := by
  have hcontent : ∀ chunks : List ChunkDescriptor, chunks.flatMap ChunkDescriptor.placements =
      (chunks.map ChunkDescriptor.content).flatMap ChunkDescriptor.placements := by
    intro chunks
    rw [List.flatMap_map]
    rfl
  rw [hcontent, content_set_chunk_integrity, ← hcontent]

/-- Routine steps keep replicas apart; what is said of a fixed part of the state comes along. -/
theorem routine_invariant_evaluated : RoutineInvariant fun s : System W => Evaluated s.store where
  called hs _ _ _ := hs
  observed _ hs := hs
  drawn hs := hs.of_records (fun _ => rfl) rfl rfl
  planned _ hs := hs.of_records (fun _ => rfl) rfl rfl
  judged _ _ hs := hs.of_records (map_find_modify fun _ _ => rfl) rfl rfl
  judgedChunk _ chunk integrity hs := by
    refine hs.of_records (map_find_modify fun rec _ => ?_) rfl rfl
    simp only [CheckpointRecord.replication, placements_set_chunk_integrity]
  failed hs := hs.of_records (fun _ => rfl) rfl rfl
  restored _ _ _ hs := hs.of_records (fun _ => rfl) rfl rfl
  clocked _ hs := hs
  policySet _ hs := hs.of_records (fun _ => rfl) rfl rfl
  bootSet _ hs := hs.of_records (fun _ => rfl) rfl rfl
  gcPlanned _ hs := hs.of_records (fun _ => rfl) rfl rfl
  filed _ hs := hs
  outside _ hs := hs
  rehashed hrehashed hs := by
    cases hrehashed with
    | intro _ _ hcheckpoints _ hreplicas hplacements =>
        exact hs.grow (fun id => congrArg _ (hcheckpoints.find_eq id).symm)
          (fun rid _ hrd => (hreplicas.find_eq rid).symm.trans hrd)
          fun pid _ hpd => (hplacements.find_eq pid).symm.trans hpd

theorem Evaluated.retire {s : System W} (h : Evaluated s.store) (env : Env) (id : CheckpointId) :
    Evaluated (finalState (CheckpointStore.retire env id s)).store := by
  refine post_final (P := fun _ (s' : System W) => Evaluated s'.store) ?_
  refine (post_retire env id s).mono (fun _ s' hs' => ?_) (by rintro _ _ rfl; exact h)
  cases hs' with
  | intro => exact h.of_records (map_find_modify fun _ _ => rfl) rfl rfl

theorem Evaluated.authority_reset {store : Store W} (h : Evaluated store) :
    Evaluated (authorityReset store) := by
  refine h.of_records (map_find_map_values fun _ rec => ?_) rfl rfl
  unfold CheckpointRecord.authorityReset
  split <;> rfl

/-- A collection keeps the states evaluated. -/
theorem GcRan.evaluated {env : Env} {s s' : System W} (h : GcRan env s s')
    (hs : Evaluated s.store) : Evaluated s'.store := by
  obtain ⟨_, _, _, _, _, hstore⟩ := h.store_eq
  exact hs.of_records (h.map_find fun _ => rfl) (by rw [hstore]) (by rw [hstore])

/-! ## Publication -/

theorem PublishFailed.evaluated {env : Env} {descriptor : CheckpointDescriptor} {data : Bytes}
    {s s' : System W} (h : PublishFailed env descriptor data s s') (hs : Evaluated s.store) :
    Evaluated s'.store := by
  obtain ⟨_, _, _, _, _, hstore⟩ := h.store_eq
  refine hs.grow (fun id => by rw [Store.replication, hstore]; rfl)
    (fun rid rd hrd => by rw [hstore]; exact hrd) fun pid pd hpd => ?_
  cases h with
  | rejected => exact hpd
  | interrupted _ _ hrounds hstopped _ =>
      obtain ⟨c, hstore⟩ := hstopped.store_eq
      simp only [System.rolledBack, hstore]
      exact hrounds.find_placement hpd

/-- The chunks of a publication are placed in its replica. -/
theorem Recording.placed {done : List ChunkSlice} {p : Publishing W} (h : Recording done p) :
    ∀ pid ∈ p.locals.chunkDescriptors.flatMap ChunkDescriptor.placements,
      ∃ pd, p.system.store.placements.find pid = some pd ∧
        pd.replicaId = p.locals.replicaId := by
  have hrecorded : List.Forall₂ (fun cd _ => (∃ slice, ChunkRecorded p slice cd) ∧ True)
      p.locals.chunkDescriptors done :=
    List.Forall₂.flip (h.chunks.imp fun slice _ hrecorded => ⟨⟨slice, hrecorded⟩, trivial⟩)
  intro pid hpid
  obtain ⟨cd, hcd, hin⟩ := List.mem_flatMap.mp hpid
  obtain ⟨slice, hplaced⟩ := ((List.forall₂_and_left _ _).mp hrecorded).1 cd hcd
  obtain ⟨pid', pd, hplacements, hfind, hreplica⟩ := hplaced.placed
  rw [hplacements, List.mem_singleton] at hin
  exact ⟨pd, hin ▸ hfind, hreplica⟩

/-- A publication gives its checkpoint a replica of its own, unless the identity counter has
wrapped around. -/
theorem Published.evaluated {env : Env} {descriptor : CheckpointDescriptor} {data : Bytes}
    {s s' : System W} (h : Published env descriptor data s s') (hnumbered : Numbered s)
    (hroom : 1000 + s'.idsDrawn ≤ 2 ^ 64) (hs : Evaluated s.store) : Evaluated s'.store := by
  cases h with
  | @intro underlay slices p w hadmitted hslices hrounds _ _ =>
      have hroom' : 1000 + p.system.idsDrawn + 1 ≤ 2 ^ 64 := hroom
      obtain ⟨hrecording, hfresh⟩ := hrounds.recording hnumbered hroom'
      have hfind : ∀ id, (publishedStore env descriptor data p).replication id =
          if id = descriptor.id then some (publishedRecord env descriptor data p).replication
          else s.store.replication id := by
        intro id
        rw [Store.replication, hrounds.find_published hadmitted.fresh env data id]
        split <;> rfl
      have hmembers : (publishedRecord env descriptor data p).replication.members =
          [p.locals.replicaId] := rfl
      refine ⟨fun id r hr => ?_, fun id id' r r' hr hr' heq => ?_⟩
      · rw [hfind] at hr
        by_cases hid : id = descriptor.id
        · rw [if_pos hid, Option.some.injEq] at hr
          subst hr
          exact ⟨p.locals.replicaId, rfl,
            ⟨_, hrounds.find_new_replica env descriptor data hfresh, .verified⟩, hrecording.placed⟩
        · rw [if_neg hid] at hr
          obtain ⟨rid, hreplicated⟩ := hs.replicated id r hr
          exact ⟨rid, hreplicated.grow
            (fun _ _ hrd => hrounds.find_old_replica env descriptor data hrd)
            fun _ _ hpd => hrounds.find_placement hpd⟩
      · rw [hfind] at hr hr'
        by_cases hid : id = descriptor.id
        · by_cases hid' : id' = descriptor.id
          · rw [hid, hid']
          · rw [if_pos hid, Option.some.injEq] at hr
            rw [if_neg hid'] at hr'
            subst hr
            exact absurd heq.symm (hs.members_ne hfresh hr')
        · rw [if_neg hid] at hr
          by_cases hid' : id' = descriptor.id
          · rw [if_pos hid', Option.some.injEq] at hr'
            subst hr'
            exact absurd heq (hs.members_ne hfresh hr)
          · rw [if_neg hid'] at hr'
            exact hs.apart id id' r r' hr hr' heq

/-! ## Restoring -/

/-- Quarantining a verified replica downgrades the checkpoint that was read. -/
theorem replication_quarantine {store : Store W} {id : CheckpointId} {r : Replication}
    (hr : store.replication id = some r) {rd : ReplicaDescriptor} (hrd : rd.integrity = .verified)
    (rid : ReplicaId) (id' : CheckpointId) :
    (CheckpointStore.quarantine id rid rd store).replication id' =
      if id' = id then some { r with state := .degraded } else store.replication id' := by
  rw [CheckpointStore.quarantine, if_pos hrd]
  show ((store.checkpoints.modify id _).find id').map CheckpointRecord.replication = _
  rw [find_modify]
  by_cases hid : id' = id
  · rw [if_pos hid, if_pos hid, hid, Option.map_map]
    obtain ⟨rec, hrec, hview⟩ := Option.map_eq_some_iff.mp hr
    rw [hrec, Option.map_some, ← hview]
    rfl
  · rw [if_neg hid, if_neg hid]
    rfl

/-- The replica of a checkpoint has been quarantined, and no other checkpoint has it. -/
theorem Evaluated.quarantine {store : Store W} (h : Evaluated store) {id : CheckpointId}
    {r : Replication} (hr : store.replication id = some r) {rid : ReplicaId}
    (hrid : r.members = [rid]) (rd : ReplicaDescriptor) :
    Evaluated (CheckpointStore.quarantine id rid rd store) := by
  by_cases hrd : rd.integrity = .verified
  case neg =>
    rw [CheckpointStore.quarantine, if_neg hrd]
    exact h.of_records (fun _ => rfl) rfl rfl
  have hfind := replication_quarantine hr hrd rid
  -- The members are those from before.
  have hmembers : ∀ id' r', (CheckpointStore.quarantine id rid rd store).replication id' =
      some r' → ∃ r₀, store.replication id' = some r₀ ∧ r₀.members = r'.members := by
    intro id' r' hr'
    rw [hfind] at hr'
    split at hr'
    · next hid =>
        cases hr'
        exact ⟨r, hid ▸ hr, rfl⟩
    · exact ⟨r', hr', rfl⟩
  refine ⟨fun id' r' hr' => ?_, fun id₁ id₂ r₁ r₂ hr₁ hr₂ heq => ?_⟩
  · rw [hfind] at hr'
    split at hr'
    · cases hr'
      obtain ⟨rid₀, hrid₀, ⟨rd₀, hrd₀, _⟩, hplaced⟩ := h.replicated id r hr
      obtain rfl : rid₀ = rid := List.singleton_inj.mp (hrid₀.symm.trans hrid)
      refine ⟨rid₀, hrid₀,
        ⟨{ rd₀ with integrity := .corrupt, role := .quarantined }, ?_, .corrupt⟩, ?_⟩
      · rw [find_replica_quarantine _ _ hrd, if_pos rfl, hrd₀]
        rfl
      · rw [placements_quarantine]
        exact hplaced
    · next hid =>
        obtain ⟨rid', hrid', ⟨rd', hrd', hjudged⟩, hplaced⟩ := h.replicated id' r' hr'
        have hother : rid' ≠ rid := by
          intro hsame
          refine hid (h.apart id' id r' r hr' hr ?_)
          rw [hrid', hrid, hsame]
        refine ⟨rid', hrid', ⟨rd', ?_, hjudged⟩, ?_⟩
        · rw [find_replica_quarantine _ _ hrd, if_neg hother, hrd']
        · rw [placements_quarantine]
          exact hplaced
  · obtain ⟨r₁', hr₁', hmembers₁⟩ := hmembers id₁ r₁ hr₁
    obtain ⟨r₂', hr₂', hmembers₂⟩ := hmembers id₂ r₂ hr₂
    exact h.apart id₁ id₂ r₁' r₂' hr₁' hr₂' (hmembers₁.trans (heq.trans hmembers₂.symm))

theorem members_same_content {R : W → W → Prop} {s s' : System W} (h : SameContent R s s')
    (id : CheckpointId) : (s'.store.replication id).map Replication.members =
      (s.store.replication id).map Replication.members := by
  have hmembers : ∀ found : Option CheckpointRecord,
      (found.map CheckpointRecord.replication).map Replication.members =
        (found.map CheckpointRecord.content).map fun rec => rec.replicaSet.replicas := by
    intro found
    cases found <;> rfl
  rw [Store.replication, Store.replication, hmembers, hmembers, h.checkpoints id]

/-- Restoring, against whatever the backends hold, quarantines replicas of the checkpoint only. -/
theorem Evaluated.restore {s : System W} (h : Evaluated s.store) (env : Env)
    (restoreId : RestoreId) (id : CheckpointId) :
    Evaluated (finalState (CheckpointStore.restore env restoreId id s)).store := by
  let P (rid : ReplicaId) : Prop := (s.store.replication id).map Replication.members = some [rid]
  have hlooks := routine_invariant_evaluated.toLookInvariant.and
    (look_invariant_quiet (R := Anything) (all_look_anything s))
  have hrestore : Preserves (fun s' : System W => Evaluated s'.store ∧ Quiet Anything s s')
      (CheckpointStore.restore env restoreId id) := hlooks.preserves_restore (P := P) ?_ _ _ ?_
  · exact (post_final (P := fun _ (s' : System W) => Evaluated s'.store ∧ Quiet Anything s s')
      (hrestore s ⟨h, Quiet.refl s⟩)).1
  · rintro s₁ rid rd ⟨hs₁, hquiet⟩ hrid
    refine ⟨?_, hquiet.trans (quiet_quarantine id rid rd s₁)⟩
    have hmembers := (members_same_content hquiet.toSameContent id).trans hrid
    obtain ⟨r, hr, hrid'⟩ := Option.map_eq_some_iff.mp hmembers
    exact hs₁.quarantine hr hrid' rd
  · rintro s₂ s₁ rec cd ⟨hs₁, hquiet₁⟩ hfind ⟨_, hquiet₂⟩ hcd rid hrid
    have hr : s₁.store.replication id = some rec.replication := by
      rw [Store.replication, hfind]
      rfl
    obtain ⟨rid₁, hrid₁, _, hplaced⟩ := hs₁.replicated id _ hr
    have hown : P rid₁ := by
      refine (members_same_content hquiet₁.toSameContent id).symm.trans ?_
      rw [hr, Option.map_some, hrid₁]
    suffices hsame : rid = rid₁ by rw [hsame]; exact hown
    unfold candidates at hrid
    simp only at hrid
    split at hrid
    · rw [show rec.replicaSet.replicas = [rid₁] from hrid₁] at hrid
      exact List.mem_singleton.mp hrid
    · obtain ⟨pid, hpid, hfound⟩ := List.mem_filterMap.mp hrid
      obtain ⟨pd, hpd, hreplica⟩ := hplaced pid (List.mem_flatMap.mpr ⟨cd, hcd, hpid⟩)
      rw [(hquiet₂.placements pid).trans (hquiet₁.placements pid).symm, hpd] at hfound
      exact (Option.some.inj hfound).symm.trans hreplica

/-! ## Runs -/

theorem evaluated_create (options : StoreOptions)
    (backends : UnorderedMap StorageBackendId (IBackend W)) :
    Evaluated (Store.create options backends) where
  replicated _ _ hr := by cases hr
  apart _ _ _ _ hr := by cases hr

/-- Every step but a restart keeps the replicas of checkpoints apart, before identities run out. -/
theorem step_evaluated {env : Env} {R : W → W → Prop} {s s' : System W} {e : Event W}
    (hstep : Step env R s e s') (hreopens : e.reopens = false) (hnumbered : Numbered s)
    (hroom : 1000 + s'.idsDrawn ≤ 2 ^ 64) (hs : Evaluated s.store) : Evaluated s'.store := by
  have hroutine : e.routine = true → Evaluated s'.store :=
    fun hroutine => routine_invariant_evaluated.step hstep hroutine hs
  cases hstep with
  | rehash | outside => exact hroutine rfl
  | call op =>
      cases op with
      | createFamily => exact hs.of_records (fun _ => rfl) rfl rfl
      | publish descriptor data =>
          exact publish_ends
            (P := fun _ (s' : System W) => 1000 + s'.idsDrawn ≤ 2 ^ 64 → Evaluated s'.store)
            (fun _ h hroom => h.evaluated hnumbered hroom hs) (fun _ _ h _ => h.evaluated hs) hroom
      | retire id => exact hs.retire env id
      | gcRun =>
          exact gc_run_ends (P := fun _ (s' : System W) => Evaluated s'.store)
            fun _ _ h => h.evaluated hs
      | restore restoreId id =>
          rw [Op.run, final_state_map]
          exact hs.restore env restoreId id
      | resetAuthority => exact hs.authority_reset
      | reopen => simp [Event.reopens] at hreopens
      | _ => exact hroutine rfl

/-- The recorded durability state agrees with the evaluator. In any run in which no identity is
handed out twice and no restart takes place, every replica of a checkpoint has a descriptor, and
the recorded state is what the evaluator computes from these. -/
theorem durability_state_evaluated {env : Env} {start : StoreOptions}
    {registered : UnorderedMap StorageBackendId (IBackend W)} {w : W} {events : List (Event W)}
    {s : System W} (hrun : Run (Step env Anything) (.fresh start registered w) events s)
    (hreopens : ∀ e ∈ events, e.reopens = false) (hroom : 1000 + s.idsDrawn ≤ 2 ^ 64)
    {id : CheckpointId} {rec : CheckpointRecord} (hfind : s.store.checkpoints.find id = some rec)
    (hrequired : 1 ≤ rec.descriptor.requiredReplicaCount) :
    ∃ members, rec.replicaSet.replicas.map s.store.replicas.find = members.map some ∧
      rec.replicaSet.durabilityState =
        evaluateReplicaDurability rec.descriptor.requiredReplicaCount members := by
  have hevaluated : Numbered s ∧ (1000 + s.idsDrawn ≤ 2 ^ 64 → Evaluated s.store) := by
    refine Run.invariant_on (A := fun e => e.reopens = false)
      (fun _ s => Numbered s ∧ (1000 + s.idsDrawn ≤ 2 ^ 64 → Evaluated s.store))
      ⟨.fresh, fun _ => evaluated_create start registered⟩ ?_ hrun hreopens
    rintro _ s₁ e s₂ _ ⟨hnumbered, hs₁⟩ hreopens hstep
    have htransition := step_transition (all_look_anything s₁) hstep
    have hmono := htransition.ids_drawn_le hreopens
    exact ⟨htransition.numbered hreopens hnumbered, fun hroom =>
      step_evaluated hstep hreopens hnumbered hroom (hs₁ (by omega))⟩
  have hr : s.store.replication id = some rec.replication := by
    rw [Store.replication, hfind]
    rfl
  obtain ⟨rid, hmembers, ⟨rd, hrd, hjudged⟩, _⟩ := (hevaluated.2 hroom).replicated id _ hr
  refine ⟨[rd], ?_, hjudged.evaluated hrequired⟩
  rw [show rec.replicaSet.replicas = [rid] from hmembers, List.map_singleton, List.map_singleton,
    hrd]

/-- A store with one checkpoint, whose object has been overwritten from outside. -/
def damagedSystem (H : StreamHash) : System MemoryWorld :=
  let s := sampleRun H [] [.createFamily, .publish (sampleDescriptor 7 1 1) [5]]
  { s with world := { s.world with objects := s.world.objects.mapValues fun _ _ => [9] } }

theorem run_damaged (H : StreamHash) (ops : List (Op MemoryWorld))
    (hops : ∀ op ∈ ops, (Event.call op none).reopens = false) :
    ∃ events, Run (Step (sampleEnv H) Anything) (sampleSystem H []) events
        (callAll (sampleEnv H) (damagedSystem H) ops) ∧ ∀ e ∈ events, e.reopens = false := by
  have hbefore := run_calls (sampleEnv H) Anything (sampleSystem H [])
    [.createFamily, .publish (sampleDescriptor 7 1 1) [5]]
  have hdamaged : Step (sampleEnv H) Anything _ .outside (damagedSystem H) := .outside trivial
  refine ⟨_, (hbefore.extend hdamaged).append (run_calls _ _ _ ops), fun e he => ?_⟩
  rw [List.mem_append, List.mem_append, List.mem_singleton] at he
  rcases he with (he | rfl) | he
  · exact reopens_of_mem_call_events (by decide) he
  · rfl
  · exact reopens_of_mem_call_events hops he

/-- A restore quarantines the only replica. -/
theorem durability_state_evaluated_damaged :
    ∃ rec members, (callAll (sampleEnv tagHash) (damagedSystem tagHash)
        [.restore ⟨1⟩ ⟨7⟩]).store.checkpoints.find ⟨7⟩ = some rec ∧
      rec.replicaSet.replicas.map (callAll (sampleEnv tagHash) (damagedSystem tagHash)
        [.restore ⟨1⟩ ⟨7⟩]).store.replicas.find = members.map some ∧
      rec.replicaSet.durabilityState = .degraded ∧
      evaluateReplicaDurability rec.descriptor.requiredReplicaCount members = .degraded := by
  obtain ⟨events, hrun, hreopens⟩ := run_damaged tagHash [.restore ⟨1⟩ ⟨7⟩]
    (by simp [Event.reopens])
  have hrecord : ((callAll (sampleEnv tagHash) (damagedSystem tagHash)
      [.restore ⟨1⟩ ⟨7⟩]).store.checkpoints.find ⟨7⟩).map (fun rec =>
        (rec.descriptor.requiredReplicaCount, rec.replicaSet.durabilityState)) =
      some (1, .degraded) := by
    decide +kernel
  obtain ⟨rec, hfind, hrec⟩ := Option.map_eq_some_iff.mp hrecord
  obtain ⟨hrequired, hdegraded⟩ := Prod.mk.inj hrec
  obtain ⟨members, hmembers, hevaluated⟩ := durability_state_evaluated hrun hreopens
    (by decide +kernel) hfind (by rw [hrequired]; decide)
  exact ⟨rec, members, hfind, hmembers, hdegraded, hevaluated.symm.trans hdegraded⟩

/-! ## When the identities come round -/

/-- An admitted publication of no data commits. -/
theorem post_publish_empty (env : Env) {s : System W} {descriptor : CheckpointDescriptor}
    {underlay : IBackend W} (h : Admitted s descriptor underlay) :
    Post (publish env descriptor []) s
      (fun _ s' => s'.store = publishedStore env descriptor [] (.start s)) (fun _ _ => False) := by
  have hslices : chunkStream env.hash [] s.store.options.chunkSize = .ok [] := by
    rw [chunkStream, if_pos h.chunkSize]
    rfl
  have hdigest : env.hash.final env.hash.init = env.hash.sha256 [] := env.hash.final_foldl []
  simp only [publish, post_bind, post_get, post_from_except, post_next_id, post_with_locals,
    post_try_catch]
  refine (post_check_admission s descriptor).mono (fun underlay' s₁ hs₁ => ?_)
    (fun _ _ hs₁ => hs₁.1 underlay h)
  obtain ⟨rfl, -⟩ := hs₁
  rw [hslices]
  refine ⟨fun slices hs => ?_, fun e he => by cases he⟩
  cases hs
  simp only [publishBody, finishPublish, readBack, List.forM_nil, post_bind, post_pure, post_get,
    post_on_system, hdigest, ne_eq, not_true_eq_false, post_from_except, post_ite, post_next_id,
    post_modify_store, post_throw_store_error]
  refine ⟨False.elim, fun _ => ⟨fun expected htile => ⟨fun hsize => ?_, fun _ => rfl⟩,
    fun e he => by cases he⟩⟩
  cases htile
  exact absurd rfl hsize

/-- Calls of `gc_plan` draw identities, read the clock and change the plan. -/
theorem call_all_gc_plan (env : Env) (s : System W) (n : Nat) :
    ∃ ticks gc, callAll env s (List.replicate n .gcPlan) = { s with
      ticks := ticks
      idsDrawn := s.idsDrawn + n
      store := { s.store with
        nextIdCounter := s.store.nextIdCounter + UInt64.ofNat n
        gc := gc } } := by
  induction n generalizing s with
  | zero =>
      refine ⟨s.ticks, s.store.gc, ?_⟩
      show s = { s with store := { s.store with nextIdCounter := s.store.nextIdCounter + 0 } }
      rw [UInt64.add_zero]
  | succ n ih =>
      have hplanned : Planned env s (finalState ((Op.gcPlan).run env s)) := by
        rw [Op.run, final_state_map]
        exact post_final (P := fun _ (s' : System W) => Planned env s s')
          ((post_gc_plan env s).mono (fun _ _ h => h) (fun _ _ h => h.elim))
      rw [List.replicate_succ, callAll, List.foldl_cons]
      generalize finalState ((Op.gcPlan).run env s) = s₁ at hplanned
      cases hplanned with
      | intro epoch hclock hretained =>
          obtain ⟨ticks, gc, hrest⟩ := ih { s with
            ticks := _, idsDrawn := s.idsDrawn + 1, store := { s.store with
              nextIdCounter := s.store.nextIdCounter + 1, gc := _ } }
          refine ⟨ticks, gc, hrest.trans ?_⟩
          simp only [add_one_add_of_nat, Nat.add_assoc, Nat.add_comm 1 n]

theorem final_state_publish_empty (env : Env) {s : System W} {descriptor : CheckpointDescriptor}
    {underlay : IBackend W} (h : Admitted s descriptor underlay) :
    (finalState ((Op.publish descriptor []).run env s)).store =
      publishedStore env descriptor [] (.start s) := by
  rw [Op.run, final_state_map]
  exact post_final (P := fun _ (s' : System W) => s'.store = _)
    ((post_publish_empty env h).mono (fun _ _ h => h) (fun _ _ h => h.elim))

/-- The counter of a store comes round to the identity of a corrupt replica, and a checkpoint is
published. -/
theorem reused_replica_healthy {env : Env} {s : System W} {rd : ReplicaDescriptor}
    {underlay : IBackend W} (hadmitted : Admitted s (sampleDescriptor 8 2 0) underlay)
    (hcounter : s.store.nextIdCounter = 1003) (hreplica : s.store.replicas.find ⟨1000⟩ = some rd)
    (hcorrupt : rd.integrity = .corrupt) :
    let s' := callAll env s
      (List.replicate (2 ^ 64 - 3) .gcPlan ++ [.publish (sampleDescriptor 8 2 0) []])
    ∃ rec members, s'.store.checkpoints.find ⟨8⟩ = some rec ∧
      rec.descriptor.requiredReplicaCount = 1 ∧
      rec.replicaSet.replicas.map s'.store.replicas.find = members.map some ∧
      rec.replicaSet.durabilityState = .healthy ∧
      evaluateReplicaDurability rec.descriptor.requiredReplicaCount members = .degraded := by
  rw [call_all_append, call_all_singleton]
  obtain ⟨ticks, gc, hplans⟩ := call_all_gc_plan env s (2 ^ 64 - 3)
  have hnext : s.store.nextIdCounter + UInt64.ofNat (2 ^ 64 - 3) = 1000 := by
    rw [hcounter]
    decide
  rw [hplans, hnext]
  clear hplans hnext
  generalize s.idsDrawn + (2 ^ 64 - 3) = drawn
  set s₁ : System W := { s with
    ticks := ticks, idsDrawn := drawn, store := { s.store with nextIdCounter := 1000, gc := gc } }
  have hadmitted₁ : Admitted s₁ (sampleDescriptor 8 2 0) underlay :=
    ⟨hadmitted.boot, hadmitted.fresh, hadmitted.generation, hadmitted.chunkSize, hadmitted.kind,
      hadmitted.backend⟩
  have hstore := final_state_publish_empty env hadmitted₁
  have hrounds : Rounds underlay [] (.start s₁) (.start s₁) := .nil _
  have hjudged : Judged 1 rd.integrity .degraded := hcorrupt ▸ .corrupt
  refine ⟨publishedRecord env (sampleDescriptor 8 2 0) [] (.start s₁), [rd], ?_, rfl, ?_, rfl,
    (hjudged.evaluated (by decide)).symm⟩
  · rw [hstore]
    exact (hrounds.find_published hadmitted.fresh _ _ ⟨8⟩).trans (if_pos rfl)
  · rw [hstore]
    exact congrArg (fun found => [found]) (find_emplace_of_some hreplica)

/-- After `2 ^ 64` identities the counter comes round. A checkpoint is then given the identity of
a replica that an earlier restore has quarantined, and is recorded as healthy. -/
theorem durability_state_of_reused_replica :
    ∃ events s rec members, Run (Step (sampleEnv sha256Hash) Anything)
        (sampleSystem sha256Hash []) events s ∧
      (∀ e ∈ events, e.reopens = false) ∧ s.store.checkpoints.find ⟨8⟩ = some rec ∧
      rec.descriptor.requiredReplicaCount = 1 ∧
      rec.replicaSet.replicas.map s.store.replicas.find = members.map some ∧
      rec.replicaSet.durabilityState = .healthy ∧
      evaluateReplicaDurability rec.descriptor.requiredReplicaCount members = .degraded := by
  obtain ⟨events, hrun, hreopens⟩ := run_damaged sha256Hash ([.restore ⟨1⟩ ⟨7⟩] ++
    (List.replicate (2 ^ 64 - 3) .gcPlan ++ [.publish (sampleDescriptor 8 2 0) []])) (by
      intro op hop
      simp only [List.mem_append, List.mem_singleton, List.mem_replicate] at hop
      rcases hop with rfl | ⟨_, rfl⟩ | rfl <;> rfl)
  have hcondemned :
      let s := callAll (sampleEnv sha256Hash) (damagedSystem sha256Hash) [.restore ⟨1⟩ ⟨7⟩]
      (sampleDescriptor 8 2 0).producerBoot = s.store.options.bootId ∧
        s.store.checkpoints.find ⟨8⟩ = none ∧
        s.store.nextCheckpointGeneration.find ⟨1⟩ = some ⟨2⟩ ∧
        validChunkSize s.store.options.chunkSize = true ∧
        (s.store.backends.find s.store.primaryBackendId).isSome ∧
        s.store.nextIdCounter = 1003 ∧
        (s.store.replicas.find ⟨1000⟩).map ReplicaDescriptor.integrity = some .corrupt := by
    decide +kernel
  obtain ⟨hboot, hfresh, hgeneration, hvalid, hbackend, hcounter, hreplica⟩ := hcondemned
  obtain ⟨underlay, hunderlay⟩ := Option.isSome_iff_exists.mp hbackend
  obtain ⟨rd, hrd, hcorrupt⟩ := Option.map_eq_some_iff.mp hreplica
  obtain ⟨rec, members, hreused⟩ := reused_replica_healthy
    ⟨hboot, hfresh, hgeneration, hvalid, Or.inl rfl, hunderlay⟩ hcounter hrd hcorrupt
  rw [call_all_append] at hrun
  exact ⟨events, _, rec, members, hrun, hreopens, hreused⟩

end CheckpointStore
