import CheckpointStore.Persistence.Parsing
import CheckpointStore.Safety.Recovered
import Mathlib.Order.Bounds.Basic

/-!
# What a restart changes

The parts of a store that do not come back from its state file as they were. The next generation
of a family is rebuilt from the greatest generation on file, so a family without checkpoints
expects its second one (`next_generations_recovered`). The saved boot replaces the one the store
was opened with (`authority_after_load`).
-/

namespace CheckpointStore

open Foundation Foundation.Procedure Foundation.UnorderedMap

variable {W : Type}

/-! ## Next generations -/

section Generations

/-- The generations on record for a family. -/
def recordedGenerations (recs : List CheckpointRecord) (id : CheckpointFamilyId) : Set Nat :=
  { n | ∃ rec ∈ recs, rec.descriptor.familyId = id ∧ rec.descriptor.generation.value.toNat = n }

/-- After all records have been entered a family is at its greatest generation. -/
theorem raised_to_greatest (recs : List CheckpointRecord) (id : CheckpointFamilyId)
    (g : CheckpointGeneration) :
    IsGreatest ({g.value.toNat} ∪ recordedGenerations recs id)
      (raisedTo id recs g).value.toNat := by
  obtain ⟨hle, hall, hfrom⟩ := raised_to_spec id recs g
  refine ⟨hfrom.imp (fun heq => by rw [heq]; rfl) ?_, ?_⟩
  · rintro ⟨rec, hrec, hnames, heq⟩
    exact ⟨rec, hrec, hnames, by rw [heq]⟩
  · rintro n (rfl | ⟨rec, hrec, hnames, rfl⟩)
    · exact hle
    · exact hall rec hrec hnames

theorem recorded_generations_saved (period : ClockPeriod) (saved : Store W)
    (id : CheckpointFamilyId) : recordedGenerations (savedRecords period saved) id =
      recordedGenerations saved.checkpoints.values id := by
  have hperm := sorted_perm (fun r : CheckpointRecord => r.descriptor.id.value) saved.checkpoints
  ext n
  constructor
  · rintro ⟨rec, hrec, hgen⟩
    obtain ⟨rec, hsorted, rfl⟩ := List.mem_map.mp hrec
    exact ⟨rec, hperm.mem_iff.mp hsorted, hgen⟩
  · rintro ⟨rec, hrec, hgen⟩
    exact ⟨_, List.mem_map_of_mem (hperm.mem_iff.mpr hrec), hgen⟩

/-- A recovered family expects the generation after the greatest one on record, which is taken to
be 1 at least. -/
theorem find_rebuilt_generations (period : ClockPeriod) {saved : Store W} (hkeyed : WellKeyed saved)
    (next : UnorderedMap CheckpointFamilyId CheckpointGeneration) {id : CheckpointFamilyId}
    {f : FamilyRecord} (hfind : saved.families.find id = some f) :
    ∃ latest : CheckpointGeneration,
      (rebuiltGenerations period saved next).find id = some latest.next ∧
      IsGreatest ({1} ∪ recordedGenerations saved.checkpoints.values id) latest.value.toNat := by
  have hperm := sorted_perm (fun f : FamilyRecord => f.id.value) saved.families
  have hin := hperm.mem_iff.mpr (mem_values.mpr ⟨id, hfind⟩)
  have hlisted : ∃ f ∈ sortedByKey (fun f => f.id.value) saved.families, f.id = id :=
    ⟨f, hin, hkeyed.families id f hfind⟩
  have hgreatest := raised_to_greatest (savedRecords period saved) id ⟨1⟩
  rw [recorded_generations_saved] at hgreatest
  refine ⟨_, ?_, hgreatest⟩
  rw [rebuiltGenerations, find_map_values, find_raise_all_some _ ?_]
  · rfl
  · rw [find_first_generations, if_pos hlisted]

/-- In sound books the generations of a family are the numbers up to its length. -/
theorem Books.Sound.recorded_generations {store : Store W} (h : store.books.Sound)
    {id : CheckpointFamilyId} {f : FamilyRecord} (hfind : store.families.find id = some f)
    (hlength : f.checkpointIds.length < 2 ^ 64) :
    recordedGenerations store.checkpoints.values id = Set.Icc 1 f.checkpointIds.length := by
  have hmembers : store.books.members id = some f.checkpointIds := by
    rw [books_members, hfind]
    rfl
  have hconsecutive := h.consecutive id _ hmembers
  have hplace : ∀ i c, f.checkpointIds[i]? = some c → ∃ rec, store.checkpoints.find c = some rec ∧
      rec.descriptor.familyId = id ∧ rec.descriptor.generation.value.toNat = i + 1 := by
    intro i c hi
    obtain ⟨d, hd, hfamily, hgen⟩ := hconsecutive.generations i c hi
    obtain ⟨rec, hrec, rfl⟩ := Option.map_eq_some_iff.mp hd
    have hlt := (List.getElem?_eq_some_iff.mp hi).1
    refine ⟨rec, hrec, hfamily, ?_⟩
    rw [hgen]
    exact UInt64.toNat_ofNat_of_lt' (show i + 1 < 2 ^ 64 by omega)
  ext n
  constructor
  · rintro ⟨rec, hrec, hfamily, rfl⟩
    obtain ⟨c, hc⟩ := mem_values.mp hrec
    have hd : store.books.descriptor c = some rec.descriptor := by
      rw [books_descriptor, hc]
      rfl
    obtain ⟨ids, hids, hin⟩ := h.listed c _ hd
    rw [hfamily, hmembers, Option.some.injEq] at hids
    subst hids
    obtain ⟨i, hi⟩ := List.mem_iff_getElem?.mp hin
    have hlt := (List.getElem?_eq_some_iff.mp hi).1
    obtain ⟨rec', hrec', _, hgen⟩ := hplace i c hi
    rw [hc, Option.some.injEq] at hrec'
    subst hrec'
    exact Set.mem_Icc.mpr (by omega)
  · intro hn
    obtain ⟨hone, hle⟩ := Set.mem_Icc.mp hn
    obtain ⟨rec, hrec, hfamily, hgen⟩ := hplace (n - 1) _ (List.getElem?_eq_getElem (by omega))
    exact ⟨rec, mem_values.mpr ⟨_, hrec⟩, hfamily, by omega⟩

/-- The generation after the greatest one on record is the expected one exactly if there is a
record. -/
theorem Books.Sound.next_iff {store : Store W} (h : store.books.Sound) {id : CheckpointFamilyId}
    {f : FamilyRecord} (hfind : store.families.find id = some f)
    (hlength : f.checkpointIds.length < 2 ^ 64) {latest : CheckpointGeneration}
    (hlatest : IsGreatest ({1} ∪ recordedGenerations store.checkpoints.values id)
      latest.value.toNat) :
    store.nextCheckpointGeneration.find id = some latest.next ↔ f.checkpointIds ≠ [] := by
  have hmembers : store.books.members id = some f.checkpointIds := by
    rw [books_members, hfind]
    rfl
  have hnext : store.nextCheckpointGeneration.find id =
      some ⟨UInt64.ofNat (f.checkpointIds.length + 1)⟩ := (h.consecutive id _ hmembers).next
  rw [h.recorded_generations hfind hlength] at hlatest
  have hvalue : ∀ n, latest.value.toNat = n → latest.next = ⟨UInt64.ofNat (n + 1)⟩ := by
    rintro n rfl
    rw [← Books.next_of_nat, UInt64.ofNat_toNat]
  by_cases hempty : f.checkpointIds = []
  · -- Without a record the greatest generation is taken to be 1.
    have hone : latest.value.toNat = 1 := by
      rcases hlatest.1 with hone | hmem
      · exact hone
      · rw [hempty] at hmem
        simp at hmem
    rw [hnext, hvalue 1 hone, hempty]
    simp
  · have hpos : 0 < f.checkpointIds.length := List.length_pos_iff.mpr hempty
    have hlength' : latest.value.toNat = f.checkpointIds.length := by
      refine Nat.le_antisymm ?_ (hlatest.2 (Or.inr (Set.mem_Icc.mpr ⟨hpos, le_refl _⟩)))
      rcases hlatest.1 with hone | hmem
      · rw [show latest.value.toNat = 1 from hone]
        exact hpos
      · exact (Set.mem_Icc.mp hmem).2
    rw [hnext, hvalue _ hlength']
    simp [hempty]

end Generations

section Saved

variable {env : Env} {start options : StoreOptions} {w : W} {s s₁ s₂ : System W}
  {events : List (Event W)} {registered : UnorderedMap StorageBackendId (IBackend W)}
  {files : UnorderedMap Bytes Bytes} {answers : WriteAnswers}

/-- The generation check of `publish` passes. -/
def GenerationCurrent (store : Store W) (d : CheckpointDescriptor) : Prop :=
  store.nextCheckpointGeneration.find d.familyId = some d.generation

/-- Next generations after a restart. The next generation of a family comes back as it was saved
exactly when it was the one after its greatest recorded generation, taken to be 1 at least. For a
store that was not itself restarted this means: exactly when the family has a checkpoint, and then
and only then its descriptors pass the generation check as before. -/
theorem next_generations_recovered
    (hrun : Run (Step env Anything) { System.fresh start registered w with files := files }
      events s)
    (hsave : saveState env answers s = .ok () s₁)
    (hpath : options.statePath = s.store.options.statePath)
    (backends : UnorderedMap StorageBackendId (IBackend W))
    (hload : reopenStore env options backends s₁ = .ok () s₂) {id : CheckpointFamilyId}
    {f : FamilyRecord} (hfind : s.store.families.find id = some f) :
    (∃ latest : CheckpointGeneration,
        IsGreatest ({1} ∪ recordedGenerations s.store.checkpoints.values id)
          latest.value.toNat ∧
        (s₂.store.nextCheckpointGeneration.find id = s.store.nextCheckpointGeneration.find id ↔
          s.store.nextCheckpointGeneration.find id = some latest.next)) ∧
      ((∀ e ∈ events, e.reopens = false) → familiesCreated events ≤ 2 ^ 64 →
        (s₂.store.nextCheckpointGeneration.find id = s.store.nextCheckpointGeneration.find id ↔
          f.checkpointIds ≠ []) ∧
        ((∀ d : CheckpointDescriptor, d.familyId = id →
          (GenerationCurrent s.store d ↔ GenerationCurrent s₂.store d)) ↔
            f.checkpointIds ≠ [])) := by
  have hkeyed : WellKeyed s.store := well_keyed_run (well_keyed_create start registered) hrun
  obtain ⟨hrecoverable, rfl⟩ := (post_reopen_saved hkeyed hsave hpath backends).of_ok hload
  obtain ⟨latest, hlatest, hgreatest⟩ := find_rebuilt_generations env.period hkeyed ∅ hfind
  have hloaded : (reloaded env.period s.store options backends).nextCheckpointGeneration.find id =
      some latest.next := hlatest
  refine ⟨⟨latest, hgreatest, by rw [hloaded]; exact eq_comm⟩, fun hreopen hfamilies => ?_⟩
  obtain ⟨hsound, _⟩ := sound_run hrun hreopen hfamilies
  have hlength : f.checkpointIds.length ≤ 2 ^ 22 := (hrecoverable.1.families.2 id f hfind)
  have hiff := hsound.next_iff hfind (by omega) hgreatest
  have hsame : (reloaded env.period s.store options backends).nextCheckpointGeneration.find id =
      s.store.nextCheckpointGeneration.find id ↔ f.checkpointIds ≠ [] := by
    rw [hloaded, ← hiff]
    exact eq_comm
  refine ⟨hsame, ⟨fun hall => hiff.mp ?_, fun hne d hd => ?_⟩⟩
  · -- The descriptor that the restarted store expects was expected before.
    have hd := hall { sampleDescriptor 0 0 0 with familyId := id, generation := latest.next } rfl
    exact hd.mpr hloaded
  · unfold GenerationCurrent
    rw [hd]
    exact (hsame.mpr hne).symm ▸ Iff.rfl

/-- The next generation of a family with one checkpoint. -/
theorem next_generations_recovered_one_checkpoint :
    let s := sampleRun tagHash [] savedSample
    ∃ s₂, reopenStore (sampleEnv tagHash) {} ∅ (finalState (saveState (sampleEnv tagHash) {} s)) =
        .ok () s₂ ∧
      s₂.store.nextCheckpointGeneration.find ⟨1⟩ =
        s.store.nextCheckpointGeneration.find ⟨1⟩ := by
  intro s
  have hrun : Run (Step (sampleEnv tagHash) Anything)
      { System.fresh { chunkSize := 1 } (assign ⟨1⟩ (memoryBackend tagHash) ∅) {} with files := ∅ }
      (callEvents (sampleEnv tagHash) (sampleSystem tagHash []) savedSample) s :=
    run_calls (sampleEnv tagHash) Anything (sampleSystem tagHash []) savedSample
  have hstate : Recoverable .nanoseconds s.store ∧ s.store.options.statePath = [] ∧
      (s.store.families.find ⟨1⟩).map (fun f => f.checkpointIds) = some [⟨7⟩] := by
    decide +kernel
  obtain ⟨hrecoverable, hpath, hfamily⟩ := hstate
  obtain ⟨f, hfind, hids⟩ := Option.map_eq_some_iff.mp hfamily
  have hload := reopen_saved_returns (well_keyed_run (well_keyed_create _ _) hrun)
    (save_state_returns (sampleEnv tagHash) s)
    (show ({} : StoreOptions).statePath = _ from hpath.symm) ∅ hrecoverable
  have hsame := (next_generations_recovered hrun (save_state_returns (sampleEnv tagHash) s)
    (show ({} : StoreOptions).statePath = _ from hpath.symm) ∅ hload hfind).2
    (by decide +kernel) (by decide +kernel)
  exact ⟨_, hload, hsame.1.mpr (by simp [hids])⟩

/-- A family without checkpoints, saved and loaded: it expects its second generation, and a
descriptor made before the save is refused. -/
theorem empty_family_expects_second :
    let env := sampleEnv sha256Hash
    let s := sampleRun sha256Hash [] [.createFamily]
    ∃ s₂, reopenStore env { chunkSize := 1 } (assign ⟨1⟩ (memoryBackend sha256Hash) ∅)
        (finalState (saveState env {} s)) = .ok () s₂ ∧
      s.store.nextCheckpointGeneration.find ⟨1⟩ = some ⟨1⟩ ∧
      s₂.store.nextCheckpointGeneration.find ⟨1⟩ = some ⟨2⟩ ∧
      thrown (publish env (sampleDescriptor 7 1 1) [0] s) = none ∧
      thrown (publish env (sampleDescriptor 7 1 1) [0] s₂) =
        some (.error .staleGeneration "publish generation is stale") := by
  intro env s
  have hkeyed : WellKeyed s.store :=
    well_keyed_run (well_keyed_create _ _) (run_calls _ Anything (sampleSystem sha256Hash []) _)
  have hstate : Recoverable .nanoseconds s.store ∧ s.store.options.statePath = [] ∧
      s.store.nextCheckpointGeneration.find ⟨1⟩ = some ⟨1⟩ ∧
      thrown (publish env (sampleDescriptor 7 1 1) [0] s) = none := by
    decide +kernel
  obtain ⟨hrecoverable, hpath, hnext, hpublish⟩ := hstate
  have hload := reopen_saved_returns hkeyed (save_state_returns env s)
    (show ({ chunkSize := 1 } : StoreOptions).statePath = _ from hpath.symm)
    (assign ⟨1⟩ (memoryBackend sha256Hash) ∅) hrecoverable
  refine ⟨_, hload, hnext, ?_, hpublish, ?_⟩
  · decide +kernel
  · decide +kernel

/-! ## Authority -/

/-- What `publish` throws for a descriptor of another incarnation. -/
def staleAuthorityError : Exn := .error .staleAuthority "publish authority is stale"

/-- The first check of `publish` compares the producer's boot with the store's. -/
theorem stale_authority_iff (d : CheckpointDescriptor) (s : System W) :
    thrown (checkAdmission d s) = some staleAuthorityError ↔
      d.producerBoot ≠ s.store.options.bootId := by
  have hcheck : Post (checkAdmission d) s (fun _ _ => d.producerBoot = s.store.options.bootId)
      (fun e _ => e = staleAuthorityError ↔ d.producerBoot ≠ s.store.options.bootId) := by
    simp only [checkAdmission, post_bind, post_get, post_ite, post_modify_counters,
      post_throw_store_error]
    refine ⟨fun hboot => iff_of_true rfl hboot, fun hboot => ?_⟩
    have hother : ∀ code message, code ≠ ErrorCode.staleAuthority →
        (Exn.error code message = staleAuthorityError ↔
          d.producerBoot ≠ s.store.options.bootId) := by
      intro code message hcode
      exact iff_of_false (fun h => hcode (Exn.error.inj h).1) hboot
    refine ⟨fun _ => hother _ _ (by decide), fun _ => ?_⟩
    cases s.store.nextCheckpointGeneration.find d.familyId with
    | none => exact hother _ _ (by decide)
    | some next =>
        simp only [post_ite, post_bind, post_modify_counters, post_throw_store_error]
        refine ⟨fun _ => hother _ _ (by decide), fun _ => ⟨fun _ => hother _ _ (by decide),
          fun _ => ⟨fun _ => hother _ _ (by decide), fun _ => ?_⟩⟩⟩
        cases s.store.backends.find s.store.primaryBackendId with
        | none => exact hother _ _ (by decide)
        | some underlay => exact not_not.mp hboot
  cases hrun : checkAdmission d s with
  | ok underlay s' => simp [hcheck.of_ok hrun]
  | error e s' => simpa using hcheck.of_error hrun

/-- A store rejects the publications of an old incarnation for stale authority, and not those of
a new one. -/
structure FencesOff (env : Env) (old new : WorkerBootId) (s : System W) : Prop where
  rejects : ∀ (d : CheckpointDescriptor) (data : Bytes), d.producerBoot = old →
    thrown (publish env d data s) = some staleAuthorityError
  admits : ∀ d : CheckpointDescriptor, d.producerBoot = new →
    thrown (checkAdmission d s) ≠ some staleAuthorityError

theorem fences_off_iff {old new : WorkerBootId} (hne : old ≠ new) (s : System W) :
    FencesOff env old new s ↔ s.store.options.bootId = new := by
  constructor
  · intro h
    have hadmits := h.admits { sampleDescriptor 0 0 0 with producerBoot := new } rfl
    rw [Ne, stale_authority_iff, not_not] at hadmits
    exact hadmits.symm
  · intro hboot
    refine ⟨fun d data hd => ?_, fun d hd => ?_⟩
    · exact thrown_bind ((stale_authority_iff d s).mpr (by rwa [hd, hboot])) _
    · rw [Ne, stale_authority_iff, not_not, hd, hboot]

/-- Authority after a restart. A store fences off the old incarnation exactly when its boot is the
new one. After a load it has the saved boot, with or without `reset_authority`, so it still
takes orders from the old incarnation until `set_authority_boot` names the new one. -/
theorem authority_after_load
    (hrun : Run (Step env Anything) { System.fresh start registered w with files := files }
      events s)
    (hsave : saveState env answers s = .ok () s₁)
    (hpath : options.statePath = s.store.options.statePath)
    (backends : UnorderedMap StorageBackendId (IBackend W))
    (hload : reopenStore env options backends s₁ = .ok () s₂)
    (hboot : s.store.options.bootId ≠ options.bootId) :
    (∀ s' : System W, FencesOff env s.store.options.bootId options.bootId s' ↔
        s'.store.options.bootId = options.bootId) ∧
      ¬ FencesOff env s.store.options.bootId options.bootId s₂ ∧
      ¬ FencesOff env s.store.options.bootId options.bootId (finalState (resetAuthority s₂)) ∧
      FencesOff env s.store.options.bootId options.bootId
        (finalState (setAuthorityBoot options.bootId s₂)) := by
  have hkeyed : WellKeyed s.store := well_keyed_run (well_keyed_create start registered) hrun
  obtain ⟨_, rfl⟩ := (post_reopen_saved hkeyed hsave hpath backends).of_ok hload
  have hloaded : (reloaded env.period s.store options backends).options.bootId =
      s.store.options.bootId := rfl
  refine ⟨fences_off_iff hboot, ?_, ?_, (fences_off_iff hboot _).mpr rfl⟩
  · rw [fences_off_iff hboot]
    exact fun h => hboot (hloaded.symm.trans h)
  · rw [fences_off_iff hboot]
    exact fun h => hboot (hloaded.symm.trans h)

/-- A family of a store that belongs to the first incarnation. -/
def firstIncarnation : List (Op MemoryWorld) := [.setAuthorityBoot ⟨1⟩, .createFamily]

/-- The second boot fences off the first once it is set, and not before. -/
theorem authority_after_load_second_boot :
    let s := sampleRun tagHash [] firstIncarnation
    ∃ s₂, reopenStore (sampleEnv tagHash) { bootId := ⟨2⟩ } ∅
        (finalState (saveState (sampleEnv tagHash) {} s)) = .ok () s₂ ∧
      ¬ FencesOff (sampleEnv tagHash) ⟨1⟩ ⟨2⟩ s₂ ∧
      FencesOff (sampleEnv tagHash) ⟨1⟩ ⟨2⟩ (finalState (setAuthorityBoot ⟨2⟩ s₂)) := by
  intro s
  have hrun : Run (Step (sampleEnv tagHash) Anything)
      { System.fresh { chunkSize := 1 } (assign ⟨1⟩ (memoryBackend tagHash) ∅) {} with files := ∅ }
      (callEvents (sampleEnv tagHash) (sampleSystem tagHash []) firstIncarnation) s :=
    run_calls (sampleEnv tagHash) Anything (sampleSystem tagHash []) firstIncarnation
  have hstate : Recoverable .nanoseconds s.store ∧ s.store.options.statePath = [] ∧
      s.store.options.bootId = ⟨1⟩ := by
    decide +kernel
  obtain ⟨hrecoverable, hpath, hboot⟩ := hstate
  have hload := reopen_saved_returns (well_keyed_run (well_keyed_create _ _) hrun)
    (save_state_returns (sampleEnv tagHash) s)
    (show ({ bootId := ⟨2⟩ } : StoreOptions).statePath = _ from hpath.symm) ∅ hrecoverable
  obtain ⟨_, hold, _, hnew⟩ := authority_after_load hrun (save_state_returns (sampleEnv tagHash) s)
    (show ({ bootId := ⟨2⟩ } : StoreOptions).statePath = _ from hpath.symm) ∅ hload
    (by rw [hboot]; decide)
  rw [hboot] at hold hnew
  exact ⟨_, hload, hold, hnew⟩

/-- A store opened under the second boot loads the file of the first: the first incarnation can
still publish and the second cannot, also after `reset_authority`. -/
theorem old_incarnation_publishes :
    let env := sampleEnv sha256Hash
    let s := sampleRun sha256Hash [] firstIncarnation
    ∃ s₂, reopenStore env { bootId := ⟨2⟩, chunkSize := 1 }
        (assign ⟨1⟩ (memoryBackend sha256Hash) ∅) (finalState (saveState env {} s)) = .ok () s₂ ∧
      ∀ s' ∈ [s₂, finalState (resetAuthority s₂)],
        thrown (publish env { sampleDescriptor 7 2 1 with producerBoot := ⟨1⟩ } [0] s') = none ∧
        thrown (publish env { sampleDescriptor 7 2 1 with producerBoot := ⟨2⟩ } [0] s') =
          some staleAuthorityError := by
  intro env s
  have hkeyed : WellKeyed s.store :=
    well_keyed_run (well_keyed_create _ _) (run_calls _ Anything (sampleSystem sha256Hash []) _)
  have hstate : Recoverable .nanoseconds s.store ∧ s.store.options.statePath = [] := by
    decide +kernel
  have hload := reopen_saved_returns hkeyed (save_state_returns env s)
    (show ({ bootId := ⟨2⟩, chunkSize := 1 } : StoreOptions).statePath = _ from hstate.2.symm)
    (assign ⟨1⟩ (memoryBackend sha256Hash) ∅) hstate.1
  refine ⟨_, hload, ?_⟩
  decide +kernel

end Saved

end CheckpointStore
