import CheckpointStore.Persistence.Reload

/-!
# What a state file says

A body that `load_state` accepts is the bytes of a header, seven lists and the garbage-collection
fields (`StateBody`). Reading it does not depend on the store, so a load can be told apart into
what the file says (`parseBody`) and what is made of it (`StateBody.rebuild`). `load_state_ok_iff`
is the specification of a load that returns: the file parses, and no dedup entry of it is in the
table that is already there.
-/

namespace CheckpointStore

open Foundation Foundation.Procedure Foundation.UnorderedMap

variable {W α : Type}

/-! ## The contents of a body -/

/-- The scalar fields at the front of a body. -/
structure StateHeader where
  coordinatorEpoch : UInt64
  bootId : WorkerBootId
  nextIdCounter : UInt64
  integrityFailures : UInt64
  staleRejections : UInt64
  duplicateRejections : UInt64
  workerRestarts : UInt64
  reclaimedBlobs : UInt64
  reclaimedBytes : UInt64
  restoredBytes : UInt64

/-- Read the header of a body. -/
def readHeader : Proc BinReader StateHeader := do
  let coordinatorEpoch ← BinReader.u64
  let bootId ← BinReader.id
  let nextIdCounter ← BinReader.u64
  let integrityFailures ← BinReader.u64
  let staleRejections ← BinReader.u64
  let duplicateRejections ← BinReader.u64
  let workerRestarts ← BinReader.u64
  let reclaimedBlobs ← BinReader.u64
  let reclaimedBytes ← BinReader.u64
  let restoredBytes ← BinReader.u64
  pure { coordinatorEpoch, bootId, nextIdCounter, integrityFailures, staleRejections,
         duplicateRejections, workerRestarts, reclaimedBlobs, reclaimedBytes, restoredBytes }

/-- Assign the fields of a header. -/
def StateHeader.assign (header : StateHeader) (store : Store W) : Store W :=
  { store with
    coordinatorEpoch := ⟨header.coordinatorEpoch⟩
    options := { store.options with bootId := header.bootId }
    nextIdCounter := header.nextIdCounter
    counters := { store.counters with
      integrityFailures := header.integrityFailures
      staleRejections := header.staleRejections
      duplicateRejections := header.duplicateRejections
      workerRestarts := header.workerRestarts
      reclaimedBlobs := header.reclaimedBlobs
      reclaimedBytes := header.reclaimedBytes
      restoredBytes := header.restoredBytes } }

/-- Read the garbage-collection fields of a body. -/
def readGc : Proc BinReader GcState := do
  let epoch ← BinReader.id
  let generation ← BinReader.generation
  let phase ← BinReader.enum
  let markedBytes ← BinReader.u64
  let reclaimedBytes ← BinReader.u64
  pure { epoch, generation, phase, markedBytes, reclaimedBytes }

/-- Assign the garbage-collection fields that a body has. -/
def assignGc (gc : GcState) (store : Store W) : Store W :=
  { store with gc := { store.gc with
      epoch := gc.epoch
      generation := gc.generation
      phase := gc.phase
      markedBytes := gc.markedBytes
      reclaimedBytes := gc.reclaimedBytes } }

/-- Everything that is in a body, in its order. -/
structure StateBody where
  header : StateHeader
  families : List FamilyRecord
  records : List CheckpointRecord
  blobs : List BlobDescriptor
  replicas : List ReplicaDescriptor
  placements : List PlacementDescriptor
  retention : List RetentionPolicy
  gc : GcState
  dedup : List DedupEntry

/-- Read a body up to its last list. -/
def readState (period : ClockPeriod) : Proc BinReader StateBody := do
  let header ← readHeader
  let families ← BinReader.list BinReader.readFamily
  let records ← BinReader.list (BinReader.readRecord period)
  let blobs ← BinReader.list BinReader.readBlobDescriptor
  let replicas ← BinReader.list BinReader.readReplica
  let placements ← BinReader.list BinReader.readPlacement
  let retention ← BinReader.list BinReader.readRetention
  let gc ← readGc
  let dedup ← BinReader.list BinReader.readDedup
  pure { header, families, records, blobs, replicas, placements, retention, gc, dedup }

namespace StateBody

/-- No list has two elements with one key. -/
def Distinct (b : StateBody) : Prop :=
  (b.families.map fun f => f.id).Nodup ∧ (b.records.map fun r => r.descriptor.id).Nodup ∧
    (b.blobs.map fun b => b.id).Nodup ∧ (b.replicas.map fun r => r.id).Nodup ∧
    (b.placements.map fun p => p.id).Nodup ∧ (b.retention.map fun p => p.id).Nodup ∧
    (b.dedup.map fun e => e.digest).Nodup

instance (b : StateBody) : Decidable b.Distinct := by
  unfold Distinct
  infer_instance

/-- None of the dedup entries is in the table. -/
def Fresh (b : StateBody) (table : DedupTable) : Prop :=
  ∀ e ∈ b.dedup, table.find e.digest = none

/-- The next generations after the load, from those before it. -/
def nextGenerations (b : StateBody)
    (next : UnorderedMap CheckpointFamilyId CheckpointGeneration) :
    UnorderedMap CheckpointFamilyId CheckpointGeneration :=
  (enterAll raiseNext b.records (firstGenerations b.families next)).mapValues fun _ ng => ng.next

/-- The dedup table after the load, from the one before it. -/
def dedupTable (b : StateBody) (table : DedupTable) : DedupTable :=
  enterAll (fun e t => t.insertBlobEntryDirect e) b.dedup table

/-- The store that is made of a body, up to the counters that are recomputed at the end. -/
def tables (b : StateBody) (store : Store W) : Store W :=
  { b.header.assign (resetForLoad store) with
    families := fileAll (fun f => f.id) b.families ∅
    checkpoints := fileAll (fun r => r.descriptor.id) b.records ∅
    nextCheckpointGeneration := b.nextGenerations store.nextCheckpointGeneration
    blobs := fileAll (fun b => b.id) b.blobs ∅
    replicas := fileAll (fun r => r.id) b.replicas ∅
    placements := fileAll (fun p => p.id) b.placements ∅
    retention := fileAll (fun p => p.id) b.retention ∅
    gc := { ({} : GcState) with
      epoch := b.gc.epoch
      generation := b.gc.generation
      phase := b.gc.phase
      markedBytes := b.gc.markedBytes
      reclaimedBytes := b.gc.reclaimedBytes }
    dedup := b.dedupTable store.dedup }

/-- The store that a load makes of a body. -/
def rebuild (b : StateBody) (store : Store W) : Store W := recomputeCounters (b.tables store)

end StateBody

/-- What a body says, if all of it can be read and no key comes twice. -/
def parseBody (period : ClockPeriod) (body : Bytes) : Option StateBody :=
  match readState period { view := body } with
  | .ok b r => if r.remaining = 0 ∧ b.Distinct then some b else none
  | .error _ _ => none

/-! ## Next generations -/

section NextGenerations

variable {id : CheckpointFamilyId}

/-- Every listed family starts over. -/
theorem find_first_generations (fs : List FamilyRecord)
    (next : UnorderedMap CheckpointFamilyId CheckpointGeneration) :
    (firstGenerations fs next).find id =
      if ∃ f ∈ fs, f.id = id then some ⟨1⟩ else next.find id := by
  induction fs generalizing next with
  | nil => simp [firstGenerations, enterAll]
  | cons f rest ih =>
      have hstep : firstGenerations (f :: rest) next =
          firstGenerations rest (next.assign f.id ⟨1⟩) := rfl
      rw [hstep, ih, find_assign]
      by_cases hid : id = f.id
      · simp [hid]
      · simp [hid, Ne.symm hid]

/-- The next generation of a family after the records of a file have raised it. -/
def raisedTo (id : CheckpointFamilyId) (recs : List CheckpointRecord) (g : CheckpointGeneration) :
    CheckpointGeneration :=
  recs.foldl (fun g rec =>
    if rec.descriptor.familyId = id ∧ g.precedes rec.descriptor.generation then
      rec.descriptor.generation else g) g

/-- It is the highest of the generation before and those of the records. -/
theorem raised_to_spec (id : CheckpointFamilyId) (recs : List CheckpointRecord)
    (g : CheckpointGeneration) :
    g.value ≤ (raisedTo id recs g).value ∧
      (∀ rec ∈ recs, rec.descriptor.familyId = id →
        rec.descriptor.generation.value ≤ (raisedTo id recs g).value) ∧
      (raisedTo id recs g = g ∨ ∃ rec ∈ recs, rec.descriptor.familyId = id ∧
        rec.descriptor.generation = raisedTo id recs g) := by
  induction recs generalizing g with
  | nil => exact ⟨UInt64.le_refl _, by simp, .inl rfl⟩
  | cons rec rest ih =>
      have hstep : raisedTo id (rec :: rest) g = raisedTo id rest
          (if rec.descriptor.familyId = id ∧ g.precedes rec.descriptor.generation then
            rec.descriptor.generation else g) := rfl
      rw [hstep]
      split
      · next hraised =>
          obtain ⟨hle, hall, hfrom⟩ := ih rec.descriptor.generation
          have hlt : g.value < rec.descriptor.generation.value := of_decide_eq_true hraised.2
          refine ⟨UInt64.le_trans (UInt64.le_of_lt hlt) hle, List.forall_mem_cons.mpr
            ⟨fun _ => hle, hall⟩, .inr ?_⟩
          rcases hfrom with heq | ⟨rec', hrec', hnames, heq⟩
          · exact ⟨rec, List.mem_cons_self, hraised.1, heq.symm⟩
          · exact ⟨rec', List.mem_cons_of_mem _ hrec', hnames, heq⟩
      · next hkept =>
          obtain ⟨hle, hall, hfrom⟩ := ih g
          refine ⟨hle, List.forall_mem_cons.mpr ⟨fun hnames => ?_, hall⟩, hfrom.imp_right ?_⟩
          · have hnot : ¬ g.value < rec.descriptor.generation.value := fun hlt =>
              hkept ⟨hnames, decide_eq_true hlt⟩
            exact UInt64.le_trans (UInt64.not_lt.mp hnot) hle
          · rintro ⟨rec', hrec', hnames, heq⟩
            exact ⟨rec', List.mem_cons_of_mem _ hrec', hnames, heq⟩

/-- A family that no record names is not raised. -/
theorem raised_to_of_unnamed {recs : List CheckpointRecord} (g : CheckpointGeneration)
    (h : ¬ ∃ rec ∈ recs, rec.descriptor.familyId = id) : raisedTo id recs g = g := by
  refine (raised_to_spec id recs g).2.2.resolve_right ?_
  rintro ⟨rec, hrec, hnames, -⟩
  exact h ⟨rec, hrec, hnames⟩

/-- Only the families that some record belongs to are raised. -/
theorem find_raise_all (recs : List CheckpointRecord)
    (next : UnorderedMap CheckpointFamilyId CheckpointGeneration) :
    (enterAll raiseNext recs next).find id =
      if ∃ rec ∈ recs, rec.descriptor.familyId = id then
        some (raisedTo id recs ((next.find id).getD {})) else next.find id := by
  induction recs generalizing next with
  | nil => simp [enterAll]
  | cons rec rest ih =>
      have hstep : enterAll raiseNext (rec :: rest) next =
          enterAll raiseNext rest (raiseNext rec next) := rfl
      rw [hstep, ih, raiseNext, find_assign]
      by_cases hid : id = rec.descriptor.familyId
      · subst hid
        simp only [List.exists_mem_cons_iff, true_or, if_pos, Option.getD_some]
        split
        · simp [raisedTo]
        · next hnone =>
            have hsame := fun g => raised_to_of_unnamed g hnone
            simp only [raisedTo, List.foldl_cons, true_and] at hsame ⊢
            rw [hsame]
      · simp only [if_neg hid, List.exists_mem_cons_iff, Ne.symm hid, false_or]
        split
        · simp [raisedTo, Ne.symm hid]
        · rfl

/-- Where there is a next generation, the records raise it. -/
theorem find_raise_all_some (recs : List CheckpointRecord)
    {next : UnorderedMap CheckpointFamilyId CheckpointGeneration} {g : CheckpointGeneration}
    (hfind : next.find id = some g) :
    (enterAll raiseNext recs next).find id = some (raisedTo id recs g) := by
  rw [find_raise_all, hfind]
  split
  · rfl
  · next hnone => rw [raised_to_of_unnamed g hnone]

end NextGenerations

/-! ## Loaders that return -/

/-- A part of the loader returns exactly when its values can be read and may be entered, and then
it has entered them. -/
def Builds (m : Proc (Loading W) Unit) (read : Proc BinReader α) (allowed : α → Store W → Prop)
    (enter : α → Store W → Store W) : Prop :=
  ∀ ld u ld', m ld = .ok u ld' ↔
    ∃ a r, read ld.reader = .ok a r ∧ allowed a ld.store ∧ ⟨r, enter a ld.store⟩ = ld'

section Builds

variable {read : Proc BinReader α} {allowed : α → Store W → Prop} {enter : α → Store W → Store W}

/-- What follows a part of the loader runs on what it has entered. -/
theorem Builds.bind_iff {m m' : Proc (Loading W) Unit} (h : Builds m read allowed enter)
    {ld ld' : Loading W} {u : Unit} :
    (m >>= fun _ => m') ld = .ok u ld' ↔ ∃ a r, read ld.reader = .ok a r ∧ allowed a ld.store ∧
      m' ⟨r, enter a ld.store⟩ = .ok u ld' := by
  rw [bind_ok_iff]
  constructor
  · rintro ⟨u₁, ld₁, hm, hm'⟩
    obtain ⟨a, r, hread, hallowed, rfl⟩ := (h ld u₁ ld₁).mp hm
    exact ⟨a, r, hread, hallowed, hm'⟩
  · rintro ⟨a, r, hread, hallowed, hm'⟩
    exact ⟨(), _, (h ld () _).mpr ⟨a, r, hread, hallowed, rfl⟩, hm'⟩

theorem from_body_ok_iff {ld ld' : Loading W} {a : α} :
    fromBody read ld = .ok a ld' ↔ ∃ r, read ld.reader = .ok a r ∧ ⟨r, ld.store⟩ = ld' := by
  unfold fromBody zoom
  cases read ld.reader <;> simp

/-- A field is read and assigned. -/
theorem builds_field (read : Proc BinReader α) (assign : α → Store W → Store W) :
    Builds (loadField read assign) read (fun _ _ => True) assign := by
  intro ld u ld'
  rw [loadField, bind_ok_iff]
  constructor
  · rintro ⟨a, ld₁, hfrom, hassign⟩
    obtain ⟨r, hread, rfl⟩ := from_body_ok_iff.mp hfrom
    cases hassign
    exact ⟨a, r, hread, trivial, rfl⟩
  · rintro ⟨a, r, hread, -, rfl⟩
    exact ⟨a, _, from_body_ok_iff.mpr ⟨r, hread, rfl⟩, rfl⟩

variable {K : Type} [DecidableEq K] {table : Store W → UnorderedMap K α} {key : α → K}

/-- A value may be entered when its key is free. -/
theorem builds_element (message : String) :
    Builds (do
      let a ← fromBody read
      let ld ← get
      if (table ld.store).contains (key a) then throwStoreError .malformed message
      else loadInto (enter a)) read (fun a store => (table store).find (key a) = none) enter := by
  intro ld u ld'
  rw [bind_ok_iff]
  constructor
  · rintro ⟨a, ld₁, hfrom, hrest⟩
    obtain ⟨r, hread, rfl⟩ := from_body_ok_iff.mp hfrom
    obtain ⟨ld₁, _, hget, hrest⟩ := bind_ok_iff.mp hrest
    cases hget
    split at hrest
    · cases hrest
    · next htaken =>
        cases hrest
        exact ⟨a, r, hread, contains_eq_false_iff.mp (Bool.eq_false_iff.mpr htaken), rfl⟩
  · rintro ⟨a, r, hread, hfree, rfl⟩
    refine ⟨a, _, from_body_ok_iff.mpr ⟨r, hread, rfl⟩, bind_ok_iff.mpr ⟨_, _, rfl, ?_⟩⟩
    rw [if_neg (by simp [contains_eq_false_iff.mpr hfree])]
    rfl

/-- Values may be entered one after the other when their keys are different and free. -/
theorem builds_times (henter : EntersIn table key enter) (message : String) (n : Nat) :
    Builds (loadTimes (do
        let a ← fromBody read
        let ld ← get
        if (table ld.store).contains (key a) then throwStoreError .malformed message
        else loadInto (enter a)) n) (BinReader.repeated read n)
      (Free table key) (enterAll enter) := by
  induction n with
  | zero =>
      intro ld u ld'
      constructor
      · intro h
        cases h
        exact ⟨[], ld.reader, rfl, by simp [Free], rfl⟩
      · rintro ⟨vs, r, hread, -, rfl⟩
        cases hread
        rfl
  | succ n ih =>
      intro ld u ld'
      rw [loadTimes, (builds_element message).bind_iff]
      simp only [ih _ _ _, BinReader.repeated, bind_ok_iff, pure_ok_iff]
      constructor
      · rintro ⟨v, r, hread, hfree, vs, r', hvs, hallowed, rfl⟩
        exact ⟨v :: vs, r', ⟨v, r, hread, vs, r', hvs, rfl, rfl⟩,
          (free_cons_iff henter).mpr ⟨hfree, hallowed⟩, rfl⟩
      · rintro ⟨_, _, ⟨v, r, hread, vs, r', hvs, rfl, rfl⟩, hallowed, rfl⟩
        obtain ⟨hfree, hallowed⟩ := (free_cons_iff henter).mp hallowed
        exact ⟨v, r, hread, hfree, vs, r', hvs, hallowed, rfl⟩

/-- A list is read and entered if its keys are new. -/
theorem builds_list (henter : EntersIn table key enter) (message : String) :
    Builds (loadList read (fun a store => (table store).contains (key a)) message enter)
      (BinReader.list read)
      (Free table key) (enterAll enter) := by
  intro ld u ld'
  rw [loadList, BinReader.list, bind_ok_iff]
  simp only [from_body_ok_iff, builds_times henter message _ _ _ _, bind_ok_iff]
  constructor
  · rintro ⟨n, _, ⟨r, hcount, rfl⟩, vs, r', hvs, hallowed, rfl⟩
    exact ⟨vs, r', ⟨n, r, hcount, hvs⟩, hallowed, rfl⟩
  · rintro ⟨vs, r', ⟨n, r, hcount, hvs⟩, hallowed, rfl⟩
    exact ⟨n, _, ⟨r, hcount, rfl⟩, vs, r', hvs, hallowed, rfl⟩

end Builds

/-- The header is read and assigned. -/
theorem builds_header :
    Builds (W := W) loadHeader readHeader (fun _ _ => True) StateHeader.assign := by
  intro ld u ld'
  simp only [loadHeader, readHeader, (builds_field _ _).bind_iff, builds_field _ _ _ _ _,
    bind_ok_iff, pure_ok_iff, true_and, Store.withCounters, StateHeader.assign]
  constructor
  · rintro ⟨v₁, r₁, h₁, v₂, r₂, h₂, v₃, r₃, h₃, v₄, r₄, h₄, v₅, r₅, h₅, v₆, r₆, h₆, v₇, r₇, h₇,
      v₈, r₈, h₈, v₉, r₉, h₉, v₁₀, r₁₀, h₁₀, rfl⟩
    exact ⟨_, _, ⟨v₁, r₁, h₁, v₂, r₂, h₂, v₃, r₃, h₃, v₄, r₄, h₄, v₅, r₅, h₅, v₆, r₆, h₆, v₇, r₇,
      h₇, v₈, r₈, h₈, v₉, r₉, h₉, v₁₀, r₁₀, h₁₀, rfl, rfl⟩, rfl⟩
  · rintro ⟨_, _, ⟨v₁, r₁, h₁, v₂, r₂, h₂, v₃, r₃, h₃, v₄, r₄, h₄, v₅, r₅, h₅, v₆, r₆, h₆, v₇, r₇,
      h₇, v₈, r₈, h₈, v₉, r₉, h₉, v₁₀, r₁₀, h₁₀, rfl, rfl⟩, rfl⟩
    exact ⟨v₁, r₁, h₁, v₂, r₂, h₂, v₃, r₃, h₃, v₄, r₄, h₄, v₅, r₅, h₅, v₆, r₆, h₆, v₇, r₇, h₇,
      v₈, r₈, h₈, v₉, r₉, h₉, v₁₀, r₁₀, h₁₀, rfl⟩

/-- So is the state of the collector. -/
theorem builds_gc : Builds (W := W) loadGc readGc (fun _ _ => True) assignGc := by
  intro ld u ld'
  simp only [loadGc, readGc, (builds_field _ _).bind_iff, builds_field _ _ _ _ _,
    bind_ok_iff, pure_ok_iff, true_and, Store.withGc, assignGc]
  constructor
  · rintro ⟨v₁, r₁, h₁, v₂, r₂, h₂, v₃, r₃, h₃, v₄, r₄, h₄, v₅, r₅, h₅, rfl⟩
    exact ⟨_, _, ⟨v₁, r₁, h₁, v₂, r₂, h₂, v₃, r₃, h₃, v₄, r₄, h₄, v₅, r₅, h₅, rfl, rfl⟩, rfl⟩
  · rintro ⟨_, _, ⟨v₁, r₁, h₁, v₂, r₂, h₂, v₃, r₃, h₃, v₄, r₄, h₄, v₅, r₅, h₅, rfl, rfl⟩, rfl⟩
    exact ⟨v₁, r₁, h₁, v₂, r₂, h₂, v₃, r₃, h₃, v₄, r₄, h₄, v₅, r₅, h₅, rfl⟩

/-- The families are read and entered. -/
theorem builds_families : Builds (W := W) loadFamilies (BinReader.list BinReader.readFamily)
    (Free (fun store => store.families) fun f => f.id) (enterAll enterFamily) :=
  builds_list enters_in_families _

/-- So are the records. -/
theorem builds_records (period : ClockPeriod) :
    Builds (W := W) (loadRecords period) (BinReader.list (BinReader.readRecord period))
      (Free (fun store => store.checkpoints) fun r => r.descriptor.id) (enterAll enterRecord) :=
  builds_list enters_in_checkpoints _

theorem builds_blobs : Builds (W := W) loadBlobs (BinReader.list BinReader.readBlobDescriptor)
    (Free (fun store => store.blobs) fun b => b.id) (enterAll enterBlob) :=
  builds_list enters_in_blobs _

theorem builds_replicas : Builds (W := W) loadReplicas (BinReader.list BinReader.readReplica)
    (Free (fun store => store.replicas) fun r => r.id) (enterAll enterReplica) :=
  builds_list enters_in_replicas _

theorem builds_placements : Builds (W := W) loadPlacements
    (BinReader.list BinReader.readPlacement)
    (Free (fun store => store.placements) fun p => p.id) (enterAll enterPlacement) :=
  builds_list enters_in_placements _

theorem builds_retention : Builds (W := W) loadRetention (BinReader.list BinReader.readRetention)
    (Free (fun store => store.retention) fun p => p.id) (enterAll enterRetention) :=
  builds_list enters_in_retention _

theorem builds_dedup : Builds (W := W) loadDedup (BinReader.list BinReader.readDedup)
    (Free (fun store => store.dedup.entries) fun e => e.digest) (enterAll enterDedup) :=
  builds_list enters_in_dedup _

theorem load_into_bind (f : Store W → Store W) (m : Proc (Loading W) Unit) (ld : Loading W) :
    (loadInto f >>= fun _ => m) ld = m ⟨ld.reader, f ld.store⟩ := rfl

/-- The tables are loaded exactly when the body can be read, no key comes twice and no dedup entry
is taken. -/
theorem load_tables_ok_iff {period : ClockPeriod} {ld ld' : Loading W} {u : Unit} :
    loadTables period ld = .ok u ld' ↔ ∃ b r, readState period ld.reader = .ok b r ∧
      b.Distinct ∧ b.Fresh ld.store.dedup ∧ ⟨r, b.tables ld.store⟩ = ld' := by
  unfold loadTables
  simp only [load_into_bind, builds_header.bind_iff, builds_families.bind_iff,
    (builds_records period).bind_iff, builds_blobs.bind_iff, builds_replicas.bind_iff,
    builds_placements.bind_iff, builds_retention.bind_iff, builds_gc.bind_iff,
    builds_dedup _ _ _, readState, bind_ok_iff, pure_ok_iff]
  simp only [enter_all_family, enter_all_record, enter_all_blob, enter_all_replica,
    enter_all_placement, enter_all_retention, enter_all_dedup]
  constructor
  · rintro ⟨header, r₁, h₁, -, fs, r₂, h₂, hfs, recs, r₃, h₃, hrecs, bs, r₄, h₄, hbs, rs, r₅, h₅,
      hrs, ps, r₆, h₆, hps, policies, r₇, h₇, hpolicies, gc, r₈, h₈, -, es, r₉, h₉, hes, rfl⟩
    exact ⟨_, _, ⟨header, r₁, h₁, fs, r₂, h₂, recs, r₃, h₃, bs, r₄, h₄, rs, r₅, h₅, ps, r₆, h₆,
      policies, r₇, h₇, gc, r₈, h₈, es, r₉, h₉, rfl, rfl⟩,
      ⟨hfs.1, hrecs.1, hbs.1, hrs.1, hps.1, hpolicies.1, hes.1⟩, hes.2, rfl⟩
  · rintro ⟨_, _, ⟨header, r₁, h₁, fs, r₂, h₂, recs, r₃, h₃, bs, r₄, h₄, rs, r₅, h₅, ps, r₆, h₆,
      policies, r₇, h₇, gc, r₈, h₈, es, r₉, h₉, rfl, rfl⟩, ⟨hfs, hrecs, hbs, hrs, hps, hpolicies,
      hes⟩, hfresh, rfl⟩
    exact ⟨header, r₁, h₁, trivial, fs, r₂, h₂, ⟨hfs, fun _ _ => rfl⟩, recs, r₃, h₃,
      ⟨hrecs, fun _ _ => rfl⟩, bs, r₄, h₄, ⟨hbs, fun _ _ => rfl⟩, rs, r₅, h₅,
      ⟨hrs, fun _ _ => rfl⟩, ps, r₆, h₆, ⟨hps, fun _ _ => rfl⟩, policies, r₇, h₇,
      ⟨hpolicies, fun _ _ => rfl⟩, gc, r₈, h₈, trivial, es, r₉, h₉, ⟨hes, hfresh⟩, rfl⟩

/-! ## Files that are loaded -/

/-- The body of the file at the state path, if the file exists and its frame is accepted. -/
def acceptedBody (env : Env) (s : System W) : Option Bytes :=
  match s.files.find s.store.options.statePath with
  | none => none
  | some raw => (readBody env.hash raw).toOption

/-- What the file at the state path says, if its frame is accepted and its body can be read. -/
def parsedFile (env : Env) (s : System W) : Option StateBody :=
  (acceptedBody env s).bind (parseBody env.period)

/-- A body parses if it is read to its end and repeats no key. -/
theorem parse_body_eq_some_iff {period : ClockPeriod} {body : Bytes} {b : StateBody} :
    parseBody period body = some b ↔ b.Distinct ∧
      ∃ r, readState period { view := body } = .ok b r ∧ r.remaining = 0 := by
  unfold parseBody
  cases readState period { view := body } with
  | error e r => simp
  | ok b' r =>
      simp only [Option.ite_none_right_eq_some, Option.some.injEq, EStateM.Result.ok.injEq]
      constructor
      · rintro ⟨⟨hend, hdistinct⟩, rfl⟩
        exact ⟨hdistinct, r, ⟨rfl, rfl⟩, hend⟩
      · rintro ⟨hdistinct, _, ⟨rfl, rfl⟩, hend⟩
        exact ⟨⟨hend, hdistinct⟩, rfl⟩

/-- A body is loaded exactly when it parses and no dedup entry of it is taken. -/
theorem load_body_ok_iff {period : ClockPeriod} {body : Bytes} {store store' : Store W} :
    (∃ r, loadBody period ⟨{ view := body }, store⟩ = .ok () ⟨r, store'⟩) ↔
      ∃ b, parseBody period body = some b ∧ b.Fresh store.dedup ∧ store' = b.rebuild store := by
  simp only [loadBody, bind_ok_iff, load_tables_ok_iff, parse_body_eq_some_iff]
  constructor
  · rintro ⟨r', u, ld₁, ⟨b, r, hread, hdistinct, hfresh, rfl⟩, ld₂, _, hget, hrest⟩
    cases hget
    split at hrest
    · cases hrest
    · next hend =>
        cases hrest
        exact ⟨b, ⟨hdistinct, r, hread, not_not.mp hend⟩, hfresh, rfl⟩
  · rintro ⟨b, ⟨hdistinct, r, hread, hend⟩, hfresh, rfl⟩
    refine ⟨r, (), _, ⟨b, r, hread, hdistinct, hfresh, rfl⟩, _, _, rfl, ?_⟩
    rw [if_neg (not_not.mpr hend)]
    rfl

/-- Loading by the steps that can refuse. -/
theorem load_state_eq (env : Env) (s : System W) :
    loadState env s =
      match s.files.find s.store.options.statePath with
      | none => .error (.error .notFound "state file not found") s
      | some raw => match readBody env.hash raw with
        | .error e => .error e s
        | .ok body => onBody body (loadBody env.period) s := by
  unfold loadState readFile
  simp only [bind, EStateM.bind, get, getThe, MonadStateOf.get]
  delta EStateM.get
  dsimp only
  cases s.files.find s.store.options.statePath with
  | none => rfl
  | some raw =>
      simp only [pure, EStateM.pure, fromExcept]
      cases readBody env.hash raw <;> rfl

/-- With an accepted frame the load of the body decides. -/
theorem load_state_accepted {env : Env} {s : System W} {body : Bytes}
    (h : acceptedBody env s = some body) :
    loadState env s = onBody body (loadBody env.period) s := by
  rw [load_state_eq]
  unfold acceptedBody at h
  cases hfile : s.files.find s.store.options.statePath with
  | none => simp [hfile] at h
  | some raw =>
      cases hbody : readBody env.hash raw with
      | error e => simp [hfile, hbody, Except.toOption] at h
      | ok body' =>
          simp only [hfile, hbody, Except.toOption, Option.some.injEq] at h
          subst h
          simp only [hbody]

/-- Without an accepted frame nothing is touched. -/
theorem load_state_refused {env : Env} {s : System W} (h : acceptedBody env s = none) :
    ∃ e, loadState env s = .error e s := by
  rw [load_state_eq]
  unfold acceptedBody at h
  cases hfile : s.files.find s.store.options.statePath with
  | none => exact ⟨_, rfl⟩
  | some raw =>
      cases hbody : readBody env.hash raw with
      | error e =>
          simp only [hbody]
          exact ⟨e, rfl⟩
      | ok body => simp [hfile, hbody, Except.toOption] at h

/-- A load returns exactly when the file parses and no dedup entry of it is taken, and then the
store is the one made of the file. -/
theorem load_state_ok_iff {env : Env} {s t : System W} :
    loadState env s = .ok () t ↔ ∃ b, parsedFile env s = some b ∧ b.Fresh s.store.dedup ∧
      t = { s with store := b.rebuild s.store } := by
  unfold parsedFile
  cases hbody : acceptedBody env s with
  | none =>
      obtain ⟨e, hrun⟩ := load_state_refused hbody
      simp [hrun]
  | some body =>
      rw [load_state_accepted hbody, onBody, Option.bind_some]
      constructor
      · intro h
        split at h
        · next ld hrun =>
            cases h
            obtain ⟨b, hparse, hfresh, hstore⟩ := load_body_ok_iff.mp ⟨ld.reader, hrun⟩
            exact ⟨b, hparse, hfresh, by rw [hstore]⟩
        · cases h
      · rintro ⟨b, hparse, hfresh, rfl⟩
        obtain ⟨r, hrun⟩ := load_body_ok_iff.mpr ⟨b, hparse, hfresh, rfl⟩
        rw [hrun]

end CheckpointStore
