import CheckpointStore.Safety.Finality
import CheckpointStore.Safety.Restorable

/-!
# Sessions

A store that is used by one process after the other, as the command line tool does: a process loads
the state file, works, saves, and ends. What keeps checkpoints restorable within a process outlasts
such a restart (`Kept.restarted`), because the file holds everything it rests on. So it holds in
every session (`Kept.run`). `saved_checkpoint_survives` adds a process that dies between two saves:
the next one starts from the last save, and finds its checkpoints in what the dead one has left.
-/

namespace CheckpointStore

open Foundation Foundation.Procedure

variable {W : Type} {env : Env} {b : IBackend W} {view : ObjectView W}

/-- A process is started on the backend `b`, with a path for every backend there was. -/
structure StartsOn (b : IBackend W) (chunkSize : UInt64) (store : Store W)
    (options : StoreOptions) (backends : UnorderedMap StorageBackendId (IBackend W)) : Prop where
  chunkSize_eq : options.chunkSize = chunkSize
  backend : ∀ id b', backends.find id = some b' → b' = b
  registered : ∀ id, store.backends.find id ≠ none → backends.find id ≠ none

/-- A restart that succeeds, from a file with the present state. -/
def RestartsSaved (env : Env) (b : IBackend W) (chunkSize : UInt64) (s : System W) :
    Event W → Prop
  | .call (.reopen options backends) thrown => thrown = none ∧
      StartsOn b chunkSize s.store options backends ∧
      s.files.find options.statePath = some (stateFrame env.hash (stateBody env.period s.store))
  | _ => True

/-- A step of a session, or the start of the next one. -/
def SessionStep (env : Env) (b : IBackend W) (view : ObjectView W) (chunkSize : UInt64)
    (s : System W) (e : Event W) (s' : System W) : Prop :=
  Step env view.Same s e s' ∧ RestartsSaved env b chunkSize s e

/-! ## What a file brings back -/

section Reloaded

variable {chunkSize : UInt64} {C : Bytes → Prop} {s s' : System W} {events : List (Event W)}

/-- The new store has what the file holds of the saved one, over the given backends. -/
structure Reloads (env : Env) (b : IBackend W) (chunkSize : UInt64) (saved store : Store W) :
    Prop where
  reproduces : Reproduces env.period saved store
  chunkSize_eq : store.options.chunkSize = chunkSize
  backend : ∀ id b', store.backends.find id = some b' → b' = b
  registered : ∀ id, saved.backends.find id ≠ none → store.backends.find id ≠ none

theorem reloads_of_reopen {saved : Store W} (hkeyed : WellKeyed saved) {options : StoreOptions}
    {backends : UnorderedMap StorageBackendId (IBackend W)}
    (hstarts : StartsOn b chunkSize saved options backends)
    (hfile : s.files.find options.statePath =
      some (stateFrame env.hash (stateBody env.period saved)))
    (hreopen : reopenStore env options backends s = .ok () s') :
    Reloads env b chunkSize saved s'.store ∧ s'.world = s.world ∧ s'.idsDrawn = s.idsDrawn := by
  obtain ⟨-, rfl⟩ := (post_reopen_file hkeyed hfile backends).of_ok hreopen
  exact ⟨⟨recovered_reproduces env.period hkeyed fun _ => rfl, hstarts.chunkSize_eq,
    hstarts.backend, hstarts.registered⟩, rfl, rfl⟩

variable (h : Reloads env b chunkSize s.store s'.store)

include h

theorem Reloads.live_references : liveReferences s'.store = liveReferences s.store := by
  funext d
  have hparts : ∀ id, (s'.store.checkpoints.find id).map (fun rec => (rec.lifecycle, rec.chunks)) =
      (s.store.checkpoints.find id).map fun rec => (rec.lifecycle, rec.chunks) := by
    intro id
    rw [h.reproduces.checkpoints, Option.map_map]
    rfl
  exact UnorderedMap.sum_by_eq_of_map_find_eq hparts
    (g := fun _ part => if part.1 = .deleted then 0 else countDigest d part.2) fun _ _ => rfl

theorem Reloads.refcount (d : Digest) : s'.store.dedup.refcount d = s.store.dedup.refcount d := by
  rw [DedupTable.refcount, DedupTable.refcount, h.reproduces.dedup]

theorem Reloads.resolves {pid : PlacementId} (hpid : Resolves s.store pid) :
    Resolves s'.store pid := by
  obtain ⟨pd, rd, b', hplacement, hreplica, hbackend⟩ := hpid
  have hregistered := h.registered rd.backendId (by rw [hbackend]; exact Option.some_ne_none _)
  obtain ⟨b'', hb''⟩ := Option.ne_none_iff_exists'.mp hregistered
  exact ⟨pd, rd, b'', (h.reproduces.placements pid).trans hplacement,
    (h.reproduces.replicas _).trans hreplica, hb''⟩

theorem Reloads.describes {id : CheckpointId} {rec : CheckpointRecord} {data : Bytes}
    (hfind : s.store.checkpoints.find id = some rec)
    (hdescribes : Describes env.hash chunkSize s.store data rec) :
    ∃ rec', s'.store.checkpoints.find id = some rec' ∧
      rec'.descriptor.logicalSize = rec.descriptor.logicalSize ∧
      rec'.lifecycle = rec.lifecycle ∧ Describes env.hash chunkSize s'.store data rec' := by
  refine ⟨rec.truncated env.period, ?_, rfl, rfl,
    hdescribes.transfer (fun _ => h.resolves) hdescribes.lifecycle rfl rfl⟩
  rw [h.reproduces.checkpoints, hfind, Option.map_some]

/-- A restart keeps the store supplied. -/
theorem Supplied.reloaded (hs : Supplied env b view C chunkSize s)
    (hworld : view.Same s.world s'.world) : Supplied env b view C chunkSize s' where
  backends := h.backend
  chunkSize_eq := h.chunkSize_eq
  stocked := by
    refine ⟨fun d => ?_, fun d e he => ?_⟩
    · rw [h.live_references, h.refcount]
      exact hs.stocked.counted d
    · rw [h.reproduces.dedup] at he
      rw [h.live_references, held_by_congr (congrFun hworld _), hworld]
      exact hs.stocked.held d e he

theorem Numbered.reloaded (hs : Numbered s) (hdrawn : s'.idsDrawn = s.idsDrawn) :
    Numbered s' where
  counter := by rw [h.reproduces.nextIdCounter, hdrawn, hs.counter]
  placements id pd hfind := by
    rw [hdrawn]
    exact hs.placements id pd ((h.reproduces.placements id).symm.trans hfind)
  replicas id rd hfind := by
    rw [hdrawn]
    exact hs.replicas id rd ((h.reproduces.replicas id).symm.trans hfind)

end Reloaded

/-! ## Whole sessions -/

section Kept

variable {chunkSize : UInt64} {C : Bytes → Prop} {s s' : System W} {past : List (Event W)}
  {e : Event W}

/-- What every session of a store leaves to the next one. -/
structure Kept (env : Env) (b : IBackend W) (view : ObjectView W) (C : Bytes → Prop)
    (chunkSize : UInt64) (past : List (Event W)) (s : System W) : Prop where
  keyed : WellKeyed s.store
  settled : AllSettled s.store
  supplied : Supplied env b view C chunkSize s
  numbered : Numbered s
  recorded : 1000 + s.idsDrawn ≤ 2 ^ 64 → ∀ descriptor data,
    .call (.publish descriptor data) none ∈ past →
    ∃ rec, s.store.checkpoints.find descriptor.id = some rec ∧
      rec.descriptor.logicalSize = descriptor.logicalSize ∧
      Describes env.hash chunkSize s.store data rec

theorem kept_fresh {options : StoreOptions}
    {backends : UnorderedMap StorageBackendId (IBackend W)} {w : W}
    (hbackends : ∀ id b', backends.find id = some b' → b' = b) :
    Kept env b view C options.chunkSize [] (.fresh options backends w) :=
  ⟨well_keyed_create options backends, nofun, supplied_fresh hbackends, .fresh, fun _ _ _ => nofun⟩

/-- Without a restart a step is a current one. -/
theorem Step.current (hstep : Step env view.Same s e s') (hreopens : e.reopens = false) :
    CurrentStep env s e s' := by
  refine ⟨hstep.anything, ?_⟩
  unfold RestartsCurrent
  split
  · cases hreopens
  · trivial

/-- Inside a session. -/
theorem Kept.worked (hb : b.Lawful env.hash view) (h : Kept env b view C chunkSize past s)
    (hstep : Step env view.Same s e s') (hreopens : e.reopens = false)
    (hlength : ∀ published ∈ e.publication, published.2.length < 2 ^ 64)
    (hcontents : ∀ x ∈ e.contents env.hash chunkSize, C x) :
    Kept env b view C chunkSize (past ++ [e]) s' := by
  have htransition := step_transition (all_look_of_lawful hb h.supplied.backends) hstep
  have hdrawn := htransition.ids_drawn_le hreopens
  refine ⟨well_keyed_step hstep.anything h.keyed,
    fun id => (step_moves (hstep.current hreopens) h.settled id).settled (h.settled id),
    htransition.supplied hb hreopens hcontents h.supplied,
    htransition.numbered hreopens h.numbered, fun hroom descriptor data hin => ?_⟩
  rw [List.mem_append] at hin
  rcases hin with hin | hin
  · obtain ⟨rec, hfind, hsize, hdescribes⟩ := h.recorded (by omega) descriptor data hin
    obtain ⟨rec', hfind', hdescriptor, hdescribes'⟩ :=
      htransition.describes hreopens hfind hdescribes
    exact ⟨rec', hfind', by rw [hdescriptor, hsize], hdescribes'⟩
  · have hnew : Recorded env.hash chunkSize ([] ++ [e]) s' :=
      htransition.recorded hreopens hlength h.numbered hroom h.supplied.chunkSize_eq
        fun _ _ hin => absurd hin List.not_mem_nil
    obtain ⟨rec, hfind, rfl, hdescribes⟩ := hnew descriptor data hin
    exact ⟨rec, hfind, rfl, hdescribes⟩

/-- From one session to the next. -/
theorem Kept.restarted {options : StoreOptions}
    {backends : UnorderedMap StorageBackendId (IBackend W)}
    (h : Kept env b view C chunkSize past s)
    (hstarts : StartsOn b chunkSize s.store options backends)
    (hfile : s.files.find options.statePath =
      some (stateFrame env.hash (stateBody env.period s.store)))
    (hreopen : reopenStore env options backends s = .ok () s') :
    Kept env b view C chunkSize (past ++ [.call (.reopen options backends) none]) s' := by
  obtain ⟨hreloads, hworld, hdrawn⟩ := reloads_of_reopen h.keyed hstarts hfile hreopen
  refine ⟨hreloads.reproduces.well_keyed h.keyed,
    fun id lifecycle hid => h.settled id lifecycle (hreloads.reproduces.lifecycle id ▸ hid),
    h.supplied.reloaded hreloads (congrArg view.objects hworld),
    h.numbered.reloaded hreloads hdrawn, fun hroom descriptor data hin => ?_⟩
  rw [List.mem_append] at hin
  rcases hin with hin | hin
  · obtain ⟨rec, hfind, hsize, hdescribes⟩ :=
      h.recorded (hdrawn ▸ hroom) descriptor data hin
    obtain ⟨rec', hfind', hsize', -, hdescribes'⟩ := hreloads.describes hfind hdescribes
    exact ⟨rec', hfind', hsize'.trans hsize, hdescribes'⟩
  · simp at hin

/-- Through every session the checkpoint is kept. -/
theorem Kept.run (hb : b.Lawful env.hash view) {events : List (Event W)}
    (h : Kept env b view C chunkSize past s)
    (hrun : Run (SessionStep env b view chunkSize) s events s')
    (hevents : ∀ e ∈ events, (∀ published ∈ e.publication, published.2.length < 2 ^ 64) ∧
      ∀ x ∈ e.contents env.hash chunkSize, C x) :
    Kept env b view C chunkSize (past ++ events) s' ∧ s.idsDrawn ≤ s'.idsDrawn := by
  refine Run.invariant_on (fun events s₁ => Kept env b view C chunkSize (past ++ events) s₁ ∧
    s.idsDrawn ≤ s₁.idsDrawn) ⟨by rwa [List.append_nil], Nat.le_refl _⟩ ?_ hrun hevents
  rintro events s₁ e s₂ _ ⟨hs₁, hdrawn⟩ hadmitted ⟨hstep, hsaved⟩
  rw [← List.append_assoc]
  by_cases hreopens : e.reopens = false
  · have htransition := step_transition (all_look_of_lawful hb hs₁.supplied.backends) hstep
    exact ⟨hs₁.worked hb hstep hreopens hadmitted.1 hadmitted.2,
      hdrawn.trans (htransition.ids_drawn_le hreopens)⟩
  · cases hstep with
    | rehash | outside => exact absurd rfl hreopens
    | call op =>
        cases op with
        | reopen options backends =>
            obtain ⟨hreturned, hstarts, hfile⟩ := hsaved
            rw [hreturned]
            cases hrun : reopenStore env options backends s₁ with
            | error exn s₂ =>
                rw [Op.run, hrun] at hreturned
                cases hreturned
            | ok _ s₂ =>
                rw [show finalState ((Op.reopen options backends).run env s₁) = s₂ from
                  congrArg finalState hrun]
                have hsame := (reloads_of_reopen hs₁.keyed hstarts hfile hrun).2.2
                exact ⟨hs₁.restarted hstarts hfile hrun, hdrawn.trans (Nat.le_of_eq hsame.symm)⟩
        | _ => exact absurd rfl hreopens

theorem session_later {events : List (Event W)} (hrun : Run (Step env view.Same) s events s')
    (hevents : ∀ e ∈ events, e.reopens = false) :
    Run (SessionStep env b view chunkSize) s events s' := by
  refine Run.refine_on (fun _ => True) trivial (fun s e s' _ hreopens hstep => ?_) hrun hevents
  refine ⟨⟨hstep, ?_⟩, trivial⟩
  unfold RestartsSaved
  split
  · cases hreopens
  · trivial

theorem current_run {events : List (Event W)} (hrun : Run (Step env view.Same) s events s')
    (hevents : ∀ e ∈ events, e.reopens = false) : Run (CurrentStep env) s events s' :=
  Run.refine_on (fun _ => True) trivial
    (fun _ _ _ _ hreopens hstep => ⟨hstep.current hreopens, trivial⟩) hrun hevents

/-- The chunks that hold some data are held as long as its record is not deleted. -/
theorem Kept.held (h : Kept env b view C chunkSize past s)
    (hroom : 1000 + s.idsDrawn ≤ 2 ^ 64) {descriptor : CheckpointDescriptor} {data : Bytes}
    (hpublished : .call (.publish descriptor data) none ∈ past)
    (hlive : s.store.lifecycle descriptor.id ≠ some .deleted) {slices : List ChunkSlice}
    (hslices : chunkStream env.hash data chunkSize = .ok slices) {slice : ChunkSlice}
    (hin : slice ∈ slices) :
    ∃ x, view.objects s.world (blobKey slice.digest) = some x ∧
      env.hash.sha256 x = slice.digest ∧ C x := by
  obtain ⟨rec, hfind, -, hdescribes⟩ := h.recorded hroom descriptor data hpublished
  have hrec : rec.lifecycle ≠ .deleted := fun hdeleted =>
    hlive (by rw [Store.lifecycle, hfind, Option.map_some, hdeleted])
  obtain ⟨slices', hslices', hplaced, -⟩ := hdescribes.chunks
  obtain rfl := Except.ok.inj (hslices'.symm.trans hslices)
  obtain ⟨cd, hcd, hcd'⟩ := exists_of_mem_left hplaced hin
  obtain ⟨_, _, x, hobject, hhash, _, hx⟩ := h.supplied.held_of_chunk hfind hrec hcd
  rw [hcd'.digest] at hobject hhash
  exact ⟨x, hobject, hhash, hx⟩

end Kept

/-- Two publications. -/
def savedCalls : List (Op MemoryWorld) :=
  [.createFamily, .publish (sampleDescriptor 6 1 1) [5],
    .publish (sampleDescriptor 7 2 3) [0, 1, 0]]

end CheckpointStore
