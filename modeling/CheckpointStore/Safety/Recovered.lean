import CheckpointStore.Safety.Bookkeeping

/-!
# Saving and loading

What a store loads from the state file of another one, for every state that a run reaches.
`saved_state_recovered` is the round trip: within the bounds of the reader everything that is
saved comes back, and is saved again as the same bytes. `save_then_load_iff` says that these
bounds are exact, and `saved_families_not_loaded` that a run can exceed them.
`state_file_canonical` compares two stores: the file depends on what is in the tables, not on how
it got there.
-/

namespace CheckpointStore

open Foundation Foundation.Procedure Foundation.UnorderedMap

variable {W : Type}

/-! ## The round trip -/

section RoundTrip

variable {env : Env} {s s₁ : System W} {answers : WriteAnswers}

/-- State file round trip. Take any state of a run whose vectors and maps are within the bound of
the reader and whose body is within its own. After a completed save, a fresh store with the same
state path loads the file, has everything the file holds of the saved store, and any save of it
that completes writes the same bytes. -/
theorem saved_state_recovered {start : StoreOptions}
    {registered : UnorderedMap StorageBackendId (IBackend W)} {w : W}
    {files : UnorderedMap Bytes Bytes} {events : List (Event W)}
    (hrun : Run (Step env Anything) { System.fresh start registered w with files := files }
      events s)
    (hfits : s.store.Fits) (hbody : (stateBody env.period s.store).length ≤ 2 ^ 31)
    (hsave : saveState env answers s = .ok () s₁) {options : StoreOptions}
    (hpath : options.statePath = s.store.options.statePath)
    (backends : UnorderedMap StorageBackendId (IBackend W)) :
    ∃ s₂, reopenStore env options backends s₁ = .ok () s₂ ∧
      Reproduces env.period s.store s₂.store ∧
      ∀ answers' s₃, saveState env answers' s₂ = .ok () s₃ →
        s₃.files.find options.statePath = s₁.files.find options.statePath := by
  have hkeyed : WellKeyed s.store := well_keyed_run (well_keyed_create start registered) hrun
  refine ⟨_, reopen_saved_returns hkeyed hsave hpath backends ⟨hfits, hbody⟩,
    recovered_reproduces env.period hkeyed fun _ => rfl, fun answers' s₃ hagain => ?_⟩
  have hsame : stateBody env.period (reloaded env.period s.store options backends) =
      stateBody env.period s.store :=
    state_body_reproduced hkeyed (recovered_reproduces env.period hkeyed fun _ => rfl)
  rw [hpath, saved_file hsave, ← hsame, ← hpath]
  exact saved_file hagain

/-- Two chunks of one checkpoint, one of them retired. -/
def savedSample : List (Op MemoryWorld) :=
  [.createFamily, .publish (sampleDescriptor 7 1 2) [0, 1], .retire ⟨7⟩]

/-- A store with a checkpoint of two chunks. -/
theorem saved_state_recovered_two_chunks :
    let s := sampleRun tagHash [] savedSample
    s.store.blobs.size = 2 ∧
      ∃ s₂, reopenStore (sampleEnv tagHash) {} ∅ (finalState (saveState (sampleEnv tagHash) {} s)) =
        .ok () s₂ ∧ Reproduces .nanoseconds s.store s₂.store := by
  intro s
  have hrun : Run (Step (sampleEnv tagHash) Anything)
      { System.fresh { chunkSize := 1 } (assign ⟨1⟩ (memoryBackend tagHash) ∅) {} with files := ∅ }
      (callEvents (sampleEnv tagHash) (sampleSystem tagHash []) savedSample) s :=
    run_calls (sampleEnv tagHash) Anything (sampleSystem tagHash []) savedSample
  have hbounds : s.store.blobs.size = 2 ∧ s.store.Fits ∧
      (stateBody .nanoseconds s.store).length ≤ 2 ^ 31 ∧ s.store.options.statePath = [] := by
    decide +kernel
  obtain ⟨hblobs, hfits, hbody, hpath⟩ := hbounds
  have hpath' : ({} : StoreOptions).statePath = s.store.options.statePath := hpath.symm
  obtain ⟨s₂, hreopen, hreproduces, _⟩ := saved_state_recovered hrun hfits hbody
    (save_state_returns _ s) hpath' ∅
  exact ⟨hblobs, s₂, hreopen, hreproduces⟩

/-- Whatever is saved can be loaded within the bounds of the reader, and only then. After a
completed save in any state of a run, a fresh store loads the file exactly when the saved store
was recoverable. -/
theorem save_then_load_iff {start : StoreOptions}
    {registered : UnorderedMap StorageBackendId (IBackend W)} {w : W}
    {files : UnorderedMap Bytes Bytes} {events : List (Event W)}
    (hrun : Run (Step env Anything) { System.fresh start registered w with files := files }
      events s)
    (hsave : saveState env answers s = .ok () s₁) {options : StoreOptions}
    (hpath : options.statePath = s.store.options.statePath)
    (backends : UnorderedMap StorageBackendId (IBackend W)) :
    thrown (reopenStore env options backends s₁) = none ↔ Recoverable env.period s.store :=
  reopen_saved_iff (well_keyed_run (well_keyed_create start registered) hrun) hsave hpath backends

/-- Such a store is loaded. -/
theorem save_then_load_iff_two_chunks :
    let s := sampleRun tagHash [] savedSample
    thrown (reopenStore (sampleEnv tagHash) {} ∅
      (finalState (saveState (sampleEnv tagHash) {} s))) = none := by
  intro s
  have hrun : Run (Step (sampleEnv tagHash) Anything)
      { System.fresh { chunkSize := 1 } (assign ⟨1⟩ (memoryBackend tagHash) ∅) {} with files := ∅ }
      (callEvents (sampleEnv tagHash) (sampleSystem tagHash []) savedSample) s :=
    run_calls (sampleEnv tagHash) Anything (sampleSystem tagHash []) savedSample
  have hbounds : Recoverable .nanoseconds s.store ∧ s.store.options.statePath = [] := by
    decide +kernel
  exact (save_then_load_iff hrun (save_state_returns _ s) hbounds.2.symm ∅).mpr hbounds.1

/-- Creating families on a fresh store numbers them and does nothing else that is saved. -/
theorem families_created (H : StreamHash) {n : Nat} (hn : n ≤ 2 ^ 64) :
    ∃ store, sampleRun H [] (List.replicate n .createFamily) =
        { sampleSystem H [] with store := store } ∧
      store.families.size = n ∧ store.books.Numbered n ∧ store.options.statePath = [] := by
  induction n with
  | zero => exact ⟨_, rfl, rfl, numbered_create _ _, rfl⟩
  | succ n ih =>
      obtain ⟨store, hrun, hsize, hnumbered, hpath⟩ := ih (by omega)
      refine ⟨familyCreated store, ?_, ?_, ?_, hpath⟩
      · rw [List.replicate_succ', sampleRun, call_all_append, ← sampleRun, hrun]
        rfl
      · have hfree : store.families.find store.nextFamilyId = none :=
          Option.map_eq_none_iff.mp (hnumbered.fresh hn)
        show (store.families.emplace _ _).size = n + 1
        rw [size_emplace_fresh hfree, hsize]
      · rw [books_family_created]
        exact hnumbered.create hn

/-- One more family than the reader accepts is saved, and the file cannot be loaded. -/
theorem saved_families_not_loaded :
    let s := sampleRun sha256Hash [] (List.replicate (2 ^ 22 + 1) .createFamily)
    ∃ s₁, saveState (sampleEnv sha256Hash) {} s = .ok () s₁ ∧
      ∃ e, thrown (reopenStore (sampleEnv sha256Hash) {} ∅ s₁) = some e := by
  intro s
  obtain ⟨store, hrun, hsize, _, hpath⟩ := families_created sha256Hash (n := 2 ^ 22 + 1) (by omega)
  have hkeyed : WellKeyed s.store :=
    well_keyed_run (well_keyed_create _ _) (run_calls _ Anything (sampleSystem sha256Hash []) _)
  have hs : s = { sampleSystem sha256Hash [] with store := store } := hrun
  refine ⟨_, save_state_returns _ s, Option.ne_none_iff_exists'.mp fun hnone => ?_⟩
  have hpath' : ({} : StoreOptions).statePath = s.store.options.statePath := by
    rw [hs]
    exact hpath.symm
  have hfits := ((reopen_saved_iff hkeyed (save_state_returns _ s) hpath' ∅).mp hnone).1
  have htoo : s.store.families.size = 2 ^ 22 + 1 := by
    rw [hs]
    exact hsize
  have hbound := hfits.families.1
  rw [htoo] at hbound
  exact absurd hbound (by decide)

end RoundTrip

/-! ## Two stores with the same content -/

section Canonical

variable {W' : Type}

/-- Two stores, over any backends, with the same entries in every table that is saved and with the
same scalar fields. -/
structure SameState (store : Store W) (store' : Store W') : Prop where
  coordinatorEpoch : store'.coordinatorEpoch = store.coordinatorEpoch
  bootId : store'.options.bootId = store.options.bootId
  nextIdCounter : store'.nextIdCounter = store.nextIdCounter
  counters : store'.counters = store.counters
  gc : store'.gc = store.gc
  families : ∀ id, store'.families.find id = store.families.find id
  checkpoints : ∀ id, store'.checkpoints.find id = store.checkpoints.find id
  blobs : ∀ id, store'.blobs.find id = store.blobs.find id
  replicas : ∀ id, store'.replicas.find id = store.replicas.find id
  placements : ∀ id, store'.placements.find id = store.placements.find id
  retention : ∀ id, store'.retention.find id = store.retention.find id
  dedup : ∀ d, store'.dedup.find d = store.dedup.find d

/-- Every table is sorted by a key that identifies its entries, so the body does not depend on the
order in which a hash table is traversed. -/
theorem SameState.body_eq {store : Store W} {store' : Store W'} (h : SameState store store')
    (hkeyed : WellKeyed store) (period : ClockPeriod) :
    stateBody period store' = stateBody period store := by
  unfold stateBody headerBytes
  rw [h.coordinatorEpoch, h.bootId, h.nextIdCounter, h.counters, h.gc,
    sorted_reproduced hkeyed.families h.families,
    sorted_reproduced hkeyed.checkpoints h.checkpoints, sorted_reproduced hkeyed.blobs h.blobs,
    sorted_reproduced hkeyed.replicas h.replicas,
    sorted_reproduced hkeyed.placements h.placements,
    sorted_reproduced hkeyed.retention h.retention, sorted_dedup_of_find_eq h.dedup]

/-- The state file is canonical. Take any state of a run and any store, over any backends, with
the same content. Every save of either of them that completes writes the same bytes. -/
theorem state_file_canonical {env : Env} (clock : Nat → TimePoint) {start : StoreOptions}
    {registered : UnorderedMap StorageBackendId (IBackend W)} {w : W}
    {files : UnorderedMap Bytes Bytes} {events : List (Event W)} {s : System W} {s' : System W'}
    (hrun : Run (Step env Anything) { System.fresh start registered w with files := files }
      events s)
    (hsame : SameState s.store s'.store) :
    ∃ raw, (∀ answers t, saveState env answers s = .ok () t →
        t.files.find s.store.options.statePath = some raw) ∧
      ∀ answers t, saveState { env with clock := clock } answers s' = .ok () t →
        t.files.find s'.store.options.statePath = some raw := by
  have hkeyed : WellKeyed s.store := well_keyed_run (well_keyed_create start registered) hrun
  refine ⟨_, fun answers t hsave => saved_file hsave, fun answers t hsave => ?_⟩
  rw [saved_file hsave, hsame.body_eq hkeyed]

/-- A family with two policies, set in the given order. -/
def withPolicies (first second : UInt64) : List (Op MemoryWorld) :=
  [.createFamily, .setRetentionPolicy { id := ⟨first⟩, familyId := ⟨1⟩ },
    .setRetentionPolicy { id := ⟨second⟩, familyId := ⟨1⟩ }]

/-- Two policies in another order. -/
theorem state_file_canonical_policies :
    let env := sampleEnv tagHash
    let s := sampleRun tagHash [] (withPolicies 1 2)
    let s' := sampleRun tagHash [] (withPolicies 2 1)
    s.store.retention.values.map RetentionPolicy.id = [⟨2⟩, ⟨1⟩] ∧
    s'.store.retention.values.map RetentionPolicy.id = [⟨1⟩, ⟨2⟩] ∧
    ∃ raw, (finalState (saveState env {} s)).files.find [] = some raw ∧
      (finalState (saveState env {} s')).files.find [] = some raw := by
  intro env s s'
  have hrun : Run (Step env Anything)
      { System.fresh { chunkSize := 1 } (assign ⟨1⟩ (memoryBackend tagHash) ∅) {} with files := ∅ }
      (callEvents env (sampleSystem tagHash []) (withPolicies 1 2)) s :=
    run_calls env Anything (sampleSystem tagHash []) (withPolicies 1 2)
  have hretention : Reordered s'.store.retention s.store.retention := List.Perm.swap _ _ _
  have hsame : SameState s.store s'.store :=
    ⟨rfl, rfl, rfl, rfl, rfl, fun _ => rfl, fun _ => rfl, fun _ => rfl, fun _ => rfl, fun _ => rfl,
      hretention.find_eq, fun _ => rfl⟩
  obtain ⟨raw, hfile, hfile'⟩ := state_file_canonical env.clock hrun hsame
  exact ⟨by decide +kernel, by decide +kernel, raw, hfile {} _ (save_state_returns env s),
    hfile' {} _ (save_state_returns env s')⟩

end Canonical

end CheckpointStore
