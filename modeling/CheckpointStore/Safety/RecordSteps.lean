import CheckpointStore.Safety.Finality
import CheckpointStore.Safety.Integrity
import CheckpointStore.Store.ProtectedSet

/-!
# What a step does to one record

`step_record` lists everything that can happen to the record of a checkpoint in a step that is not
a restart: it appears with a publication, it is retired, it is deleted because the protected set of
a collection leaves it out, or it goes on with the same descriptor, manifest and lifecycle. A
property of records that these changes keep holds in every reachable state
(`record_invariant_run`), restarts included, since a state file holds the records of an earlier
state.
-/

namespace CheckpointStore

open Foundation Foundation.Procedure Foundation.UnorderedMap

variable {W : Type}

/-- A record goes on: only integrity, freshness and chunks may differ, and it has not become
under-replicated. -/
structure Continues (rec rec' : CheckpointRecord) : Prop where
  descriptor : rec'.descriptor = rec.descriptor
  manifest : rec'.manifest = rec.manifest
  lifecycle : rec'.lifecycle = rec.lifecycle
  durability : rec'.replicaSet.durabilityState = .underReplicated →
    rec.replicaSet.durabilityState = .underReplicated

theorem Continues.refl (rec : CheckpointRecord) : Continues rec rec := ⟨rfl, rfl, rfl, fun h => h⟩

theorem Continues.trans {rec₁ rec₂ rec₃ : CheckpointRecord} (h : Continues rec₁ rec₂)
    (h' : Continues rec₂ rec₃) : Continues rec₁ rec₃ where
  descriptor := h'.descriptor.trans h.descriptor
  manifest := h'.manifest.trans h.manifest
  lifecycle := h'.lifecycle.trans h.lifecycle
  durability hunder := h.durability (h'.durability hunder)

/-- What can happen to the record of the checkpoint `id` in a step from `s`. -/
inductive RecordStep (env : Env) (s : System W) (id : CheckpointId) :
    Event W → Option CheckpointRecord → Option CheckpointRecord → Prop where
  | absent {e : Event W} : RecordStep env s id e none none
  | continued {e : Event W} {rec rec' : CheckpointRecord} (h : Continues rec rec') :
      RecordStep env s id e (some rec) (some rec')
  | published {d : CheckpointDescriptor} {data : Bytes} (p : Publishing W) (hid : d.id = id) :
      RecordStep env s id (.call (.publish d data) none) none
        (some (publishedRecord env d data p))
  | retired {rec : CheckpointRecord} (h : rec.lifecycle = .committed) :
      RecordStep env s id (.call (.retire id) none) (some rec)
        (some { rec with lifecycle := .retired })
  | deleted {rec : CheckpointRecord} {thrown : Option Exn} {marked : List CheckpointId}
      (hmarked : Saturated env s.store marked) (hout : id ∉ marked)
      (hlifecycle : rec.lifecycle = .committed ∨ rec.lifecycle = .retired) :
      RecordStep env s id (.call .gcRun thrown) (some rec)
        (some { rec with lifecycle := .deleted })

/-! ## Steps that let every record go on -/

/-- Every record goes on, and none appears. -/
def AllContinue (s s' : System W) : Prop :=
  ∀ id, Option.Rel Continues (s.store.checkpoints.find id) (s'.store.checkpoints.find id)

theorem AllContinue.record_step {env : Env} {s s' : System W} (h : AllContinue s s')
    (id : CheckpointId) (e : Event W) :
    RecordStep env s id e (s.store.checkpoints.find id) (s'.store.checkpoints.find id) := by
  have hrel := h id
  generalize s.store.checkpoints.find id = before at hrel ⊢
  generalize s'.store.checkpoints.find id = after at hrel ⊢
  cases hrel with
  | some hcontinues => exact .continued hcontinues
  | none => exact .absent

theorem AllContinue.of_find {s s' : System W}
    (h : ∀ id, s'.store.checkpoints.find id = s.store.checkpoints.find id) : AllContinue s s' := by
  intro id
  rw [h id]
  cases s.store.checkpoints.find id with
  | none => exact .none
  | some rec => exact .some (.refl rec)

theorem AllContinue.trans {s₁ s₂ s₃ : System W} (h : AllContinue s₁ s₂) (h' : AllContinue s₂ s₃) :
    AllContinue s₁ s₃ := by
  intro id
  have hrest := h' id
  generalize s₃.store.checkpoints.find id = after at hrest ⊢
  cases hmiddle : s₂.store.checkpoints.find id with
  | none =>
      have hfirst := h id
      rw [hmiddle] at hfirst hrest
      cases hrest
      exact hfirst
  | some rec =>
      have hfirst := h id
      rw [hmiddle] at hfirst hrest
      cases hrest with
      | some hcontinues =>
          generalize s₁.store.checkpoints.find id = before at hfirst ⊢
          cases hfirst with
          | some hcontinues' => exact .some (hcontinues'.trans hcontinues)

/-- Changing one record lets every record go on, if that one does. -/
theorem AllContinue.modify {s s' : System W} {id : CheckpointId}
    {f : CheckpointRecord → CheckpointRecord} (hf : ∀ rec, Continues rec (f rec))
    (h : s'.store.checkpoints = s.store.checkpoints.modify id f) : AllContinue s s' := by
  intro id'
  rw [h, find_modify]
  cases s.store.checkpoints.find id' with
  | none => split <;> exact .none
  | some rec =>
      split
      · exact .some (hf rec)
      · exact .some (.refl rec)

/-- A quarantine continues every record. -/
theorem all_continue_quarantine (id : CheckpointId) (rid : ReplicaId) (rd : ReplicaDescriptor)
    (s : System W) : AllContinue s { s with store := quarantine id rid rd s.store } := by
  unfold quarantine
  split
  · refine .modify (f := fun rec =>
      { rec with replicaSet := { rec.replicaSet with durabilityState := .degraded } })
      (fun rec => ⟨rfl, rfl, rfl, fun h => ?_⟩) rfl
    cases h
  · exact .of_find fun _ => rfl

/-- Routine steps let every record go on. -/
theorem routine_invariant_continue (s₀ : System W) : RoutineInvariant (AllContinue s₀) where
  called hs _ _ _ := hs
  observed _ hs := hs
  drawn hs := hs
  planned _ hs := hs
  judged _ integrity hs := hs.trans (.modify (f := fun rec => { rec with integrity := integrity })
    (fun _ => ⟨rfl, rfl, rfl, fun h => h⟩) rfl)
  judgedChunk _ chunk integrity hs := hs.trans (.modify
    (f := fun rec => { rec with chunks := setChunkIntegrity chunk integrity rec.chunks })
    (fun _ => ⟨rfl, rfl, rfl, fun h => h⟩) rfl)
  failed hs := hs
  restored _ _ _ hs := hs
  clocked _ hs := hs
  policySet _ hs := hs
  bootSet _ hs := hs
  gcPlanned _ hs := hs
  filed _ hs := hs
  outside _ hs := hs
  rehashed hrehashed hs := by
    cases hrehashed with
    | intro _ _ hcheckpoints =>
        exact hs.trans (.of_find fun id => (hcheckpoints.find_eq id).symm)

/-! ## The other steps -/

section Steps

variable {env : Env} {s s' : System W}

theorem Retired.record_step {rid : CheckpointId} (h : Retired rid s s') (id : CheckpointId) :
    RecordStep env s id (.call (.retire rid) none) (s.store.checkpoints.find id)
      (s'.store.checkpoints.find id) := by
  cases h with
  | @intro rec _ _ hfind hcommitted =>
      show RecordStep env s id _ _ ((retireRecord rid s.store).checkpoints.find id)
      rw [retireRecord, find_modify]
      by_cases hid : id = rid
      · subst hid
        rw [if_pos rfl, hfind]
        exact .retired hcommitted
      · rw [if_neg hid]
        exact (AllContinue.of_find fun _ => rfl).record_step id _

/-- A publication makes one record. -/
theorem Published.record_step {d : CheckpointDescriptor} {data : Bytes}
    (h : Published env d data s s') (id : CheckpointId) :
    RecordStep env s id (.call (.publish d data) none) (s.store.checkpoints.find id)
      (s'.store.checkpoints.find id) := by
  cases h with
  | @intro underlay slices p w hadmitted _ hrounds =>
      rw [hrounds.find_published hadmitted.fresh]
      by_cases hid : id = d.id
      · subst hid
        rw [if_pos rfl, hadmitted.fresh]
        exact .published p rfl
      · rw [if_neg hid]
        exact (AllContinue.of_find fun _ => rfl).record_step id _

/-- Of the committed checkpoints those in the set stay committed. -/
theorem DeletedOutside.lifecycle {marked : List CheckpointId} {store store' : Store W}
    (h : DeletedOutside marked store store') {c : CheckpointId} {rec : CheckpointRecord}
    (hfind : store.checkpoints.find c = some rec) (hcommitted : rec.lifecycle = .committed) :
    store'.lifecycle c = some (if c ∈ marked then .committed else .deleted) := by
  rw [Store.lifecycle, h c, hfind, Option.map_some, Option.map_some]
  by_cases hin : c ∈ marked
  · simp [hin, hcommitted]
  · simp [hin, hcommitted]

/-- A collection deletes records. -/
theorem GcRan.record_step (h : GcRan env s s') (thrown : Option Exn) (id : CheckpointId) :
    RecordStep env s id (.call .gcRun thrown) (s.store.checkpoints.find id)
      (s'.store.checkpoints.find id) := by
  obtain ⟨marked, hmarked, hdeleted⟩ := h.saturated
  rw [hdeleted id]
  cases s.store.checkpoints.find id with
  | none => exact .absent
  | some rec =>
      rw [Option.map_some]
      split
      · next hswept => exact .deleted hmarked hswept.2 hswept.1
      · exact .continued (.refl rec)

/-- Every step that is not a restart does one of these things to a record. -/
theorem step_record {R : W → W → Prop} {e : Event W} (h : Step env R s e s')
    (hreopen : e.reopens = false) (hsettled : AllSettled s.store) (id : CheckpointId) :
    RecordStep env s id e (s.store.checkpoints.find id) (s'.store.checkpoints.find id) := by
  have hlooks := routine_invariant_continue s
  have hrefl : AllContinue s s := .of_find fun _ => rfl
  have hroutine : e.routine = true →
      RecordStep env s id e (s.store.checkpoints.find id) (s'.store.checkpoints.find id) :=
    fun hroutine => (hlooks.step h hroutine hrefl).record_step id e
  cases h with
  | rehash | outside => exact hroutine rfl
  | call op =>
      cases op with
      | createFamily => exact hrefl.record_step id _
      | publish descriptor data =>
          exact publish_ends (P := fun thrown (s' : System W) =>
            RecordStep env s id (.call (.publish descriptor data) thrown)
              (s.store.checkpoints.find id) (s'.store.checkpoints.find id))
            (fun _ h => h.record_step id) fun exn s' h => by
              obtain ⟨_, _, _, _, _, hstore⟩ := h.store_eq
              exact (AllContinue.of_find fun id => by rw [hstore]).record_step id _
      | retire rid =>
          refine post_final (P := fun thrown (s' : System W) => RecordStep env s id
            (.call (.retire rid) thrown) (s.store.checkpoints.find id)
            (s'.store.checkpoints.find id)) ?_
          refine (post_retire env rid s).mono (fun _ _ h => h.record_step id) ?_
          rintro exn _ rfl
          exact hrefl.record_step id _
      | gcRun =>
          exact gc_run_ends (P := fun thrown (s' : System W) => RecordStep env s id
            (.call .gcRun thrown) (s.store.checkpoints.find id) (s'.store.checkpoints.find id))
            fun thrown _ h => h.record_step thrown id
      | restore restoreId rid =>
          have hrestore : Preserves (AllContinue s) ((Op.restore restoreId rid).run env) :=
            preserves_map (hlooks.preserves_restore (P := fun _ => True)
              (fun rd hs _ => hs.trans (all_continue_quarantine rid _ rd _)) env restoreId
              fun _ _ _ _ _ _ => trivial) _
          exact (post_final (P := fun _ s' => AllContinue s s') (hrestore s hrefl)).record_step id _
      | resetAuthority =>
          have hreset : AllContinue s { s with store := authorityReset s.store } :=
            .of_find (find_authority_reset hsettled)
          exact hreset.record_step id _
      | reopen => simp [Event.reopens] at hreopen
      | _ => exact hroutine rfl

end Steps

/-! ## Properties of records -/

/-- A property of records that publications of admitted descriptors establish and that no change
of a record destroys. -/
structure RecordInvariant (W : Type) (env : Env) (admits : CheckpointDescriptor → Prop)
    (P : CheckpointRecord → Prop) : Prop where
  published : ∀ d data (p : Publishing W), admits d → P (publishedRecord env d data p)
  continued : ∀ rec rec', Continues rec rec' → P rec → P rec'
  moved : ∀ rec lifecycle, P rec → P { rec with lifecycle := lifecycle }
  loaded : ∀ rec, P rec → P (rec.truncated env.period)

/-- Every record has the property and is settled. -/
def AllRecords (P : CheckpointRecord → Prop) (store : Store W) : Prop :=
  ∀ id rec, store.checkpoints.find id = some rec → rec.lifecycle.Settled ∧ P rec

theorem AllRecords.settled {P : CheckpointRecord → Prop} {store : Store W}
    (h : AllRecords P store) : AllSettled store := by
  intro id lifecycle hlifecycle
  obtain ⟨rec, hfind, rfl⟩ := Option.map_eq_some_iff.mp hlifecycle
  exact (h id rec hfind).1

section Invariant

variable {env : Env} {admits : CheckpointDescriptor → Prop} {P : CheckpointRecord → Prop}
  (h : RecordInvariant W env admits P)

include h

/-- One step keeps an invariant of records. -/
theorem RecordInvariant.step {R : W → W → Prop} {s s' : System W} {e : Event W}
    (hstep : Step env R s e s') (hreopen : e.reopens = false)
    (hpublished : ∀ d data, e.published = some (d, data) → admits d)
    (hs : AllRecords P s.store) : AllRecords P s'.store := by
  intro id rec' hfind'
  have hrecord := step_record hstep hreopen hs.settled id
  rw [hfind'] at hrecord
  generalize hfind : s.store.checkpoints.find id = before at hrecord
  cases hrecord with
  | @continued _ rec _ hcontinues =>
      obtain ⟨hsettled, hP⟩ := hs id rec hfind
      exact ⟨hcontinues.lifecycle ▸ hsettled, h.continued rec rec' hcontinues hP⟩
  | published p hid => exact ⟨.inl rfl, h.published _ _ p (hpublished _ _ rfl)⟩
  | retired hcommitted => exact ⟨.inr (.inl rfl), h.moved _ _ (hs id _ hfind).2⟩
  | deleted => exact ⟨.inr (.inr rfl), h.moved _ _ (hs id _ hfind).2⟩

/-- The records of a store that has been reopened are those of the saved one. -/
theorem RecordInvariant.reopened {s : System W} {options : StoreOptions}
    {backends : UnorderedMap StorageBackendId (IBackend W)}
    (hfiles : ∀ raw, s.files.find options.statePath = some raw → ∃ saved : Store W,
      WellKeyed saved ∧ raw = stateFrame env.hash (stateBody env.period saved) ∧
        AllRecords P saved) :
    AllRecords P (finalState (reopenStore env options backends s)).store := by
  intro id rec hfind
  obtain ⟨raw, hraw, hsaved⟩ := record_of_reopened hfind
  obtain ⟨saved, hkeyed, hframe, hrecords⟩ := hfiles raw hraw
  obtain ⟨rec', hfind', rfl⟩ := hsaved saved hkeyed hframe
  obtain ⟨hsettled, hP⟩ := hrecords id rec' hfind'
  exact ⟨hsettled, h.loaded rec' hP⟩

/-- Such a property holds in every reachable state, restarts included. -/
theorem record_invariant_run {start : StoreOptions} {w : W} {s : System W}
    {registered : UnorderedMap StorageBackendId (IBackend W)} {events : List (Event W)}
    (hrun : Run (Step env Anything) (System.fresh start registered w) events s)
    (hpublished : ∀ e ∈ events, ∀ d data, e.published = some (d, data) → admits d) :
    AllRecords P s.store := by
  let Saved (raw : Bytes) : Prop := ∃ saved : Store W, WellKeyed saved ∧
    raw = stateFrame env.hash (stateBody env.period saved) ∧ AllRecords P saved
  refine (Run.invariant_on (A := fun e => ∀ d data, e.published = some (d, data) → admits d)
    (fun _ (s : System W) => WellKeyed s.store ∧ AllRecords P s.store ∧
      ∀ path raw, s.files.find path = some raw → Saved raw) ?_ ?_ hrun hpublished).2.1
  · refine ⟨well_keyed_create _ _, fun id rec hfind => ?_, fun path raw hfile => ?_⟩
    · simp [System.fresh, Store.create] at hfind
    · simp [System.fresh] at hfile
  · rintro events s e s' _ ⟨hkeyed, hrecords, hfiles⟩ hadmitted hstep
    refine ⟨well_keyed_step hstep hkeyed, ?_, fun path raw hfile => ?_⟩
    · by_cases hreopen : e.reopens = false
      · exact h.step hstep hreopen hadmitted hrecords
      · cases hstep with
        | rehash | outside => exact absurd rfl hreopen
        | call op =>
            cases op with
            | reopen options backends => exact h.reopened fun raw hraw => hfiles _ raw hraw
            | _ => exact absurd rfl hreopen
    · rcases step_files hstep hfile with hold | hnew
      · exact hfiles path raw hold
      · exact ⟨s.store, hkeyed, hnew, hrecords⟩

end Invariant

end CheckpointStore
