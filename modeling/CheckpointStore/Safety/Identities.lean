import CheckpointStore.Runs.Operations

/-!
# The identity counter

Replicas, placements, manifests, plans and descriptors draw their identities from one 64-bit
counter. `Numbered` says that the counter is where the number of draws puts it and that every
registered placement and replica was drawn earlier; every step but a restart keeps it
(`Transition.numbered`). Until the counter has wrapped around, the next identity is therefore
new (`Numbered.placement_fresh`).
-/

namespace CheckpointStore

open Foundation Foundation.Procedure

variable {W : Type}

/-! ## How many identities an operation draws -/

section Drawn

variable {underlay : IBackend W} {slice : ChunkSlice}

theorem Missed.ids_drawn {s s' : System W} (h : Missed underlay slice s s') :
    s'.idsDrawn = s.idsDrawn := by
  cases h with
  | absent => rfl
  | damaged => rfl

theorem Acquired.ids_drawn {p q : Publishing W} {blobId : BlobId}
    (h : Acquired underlay slice p blobId q) : q.system.idsDrawn = p.system.idsDrawn := by
  cases h with
  | reused => rfl
  | written hmissed => exact hmissed.ids_drawn

/-- Every chunk draws the identity of its placement. -/
theorem Rounds.ids_drawn {slices : List ChunkSlice} {p p' : Publishing W}
    (h : Rounds underlay slices p p') :
    p'.system.idsDrawn = p.system.idsDrawn + slices.length := by
  induction h with
  | nil p => rfl
  | @cons slice rest p q p' blobId hacquired _ ih =>
      rw [ih]
      show q.system.idsDrawn + 1 + rest.length = _
      rw [hacquired.ids_drawn, List.length_cons]
      omega

theorem Stopped.ids_drawn {rest : List ChunkSlice} {s s' : System W}
    (h : Stopped underlay rest s s') : s'.idsDrawn = s.idsDrawn := by
  cases h with
  | atChunk _ hfailed =>
      cases hfailed with
      | lookup => rfl
      | verify => rfl
      | reference => rfl
      | putTemp hmissed => exact hmissed.ids_drawn
      | commit hmissed => exact hmissed.ids_drawn
  | afterLoop => rfl

theorem Reclaims.ids_drawn {reachable bids : List BlobId} {s s' : System W}
    (h : Reclaims reachable bids s s') : s'.idsDrawn = s.idsDrawn := by
  induction h with
  | nil s => rfl
  | cons hround _ ih =>
      rw [ih]
      cases hround with
      | deferred => rfl
      | forgot => rfl

theorem GcRan.ids_drawn {env : Env} {s s' : System W} (h : GcRan env s s') :
    s'.idsDrawn = s.idsDrawn := by
  cases h with
  | completed heligible hretained hreclaims =>
      obtain ⟨_, rfl⟩ := protected_sets_clock_only heligible hretained
      exact hreclaims.ids_drawn
  | interrupted heligible hretained _ hreclaims hthrew =>
      obtain ⟨_, rfl⟩ := protected_sets_clock_only heligible hretained
      have hdrawn := hreclaims.ids_drawn
      cases hthrew with
      | intro => exact hdrawn

/-- The number of draws never falls. -/
theorem Transition.ids_drawn_le {env : Env} {R : W → W → Prop} {s s' : System W} {e : Event W}
    (h : Transition env R s e s') (hreopens : e.reopens = false) : s.idsDrawn ≤ s'.idsDrawn := by
  cases h with
  | quiet _ h =>
      obtain ⟨k, _, hdrawn⟩ := h.drawn
      omega
  | published h =>
      cases h with
      | intro _ _ hrounds =>
          have hdrawn := hrounds.ids_drawn
          simp only [Publishing.start] at hdrawn ⊢
          omega
  | publishFailed h =>
      cases h with
      | rejected => exact Nat.le_refl _
      | interrupted _ _ hrounds hstopped =>
          have hdrawn := hrounds.ids_drawn
          have hstopped := hstopped.ids_drawn
          simp only [Publishing.start, System.rolledBack] at hdrawn hstopped ⊢
          omega
  | gcRan h => exact Nat.le_of_eq h.ids_drawn.symm
  | reopened => simp [Event.reopens] at hreopens

end Drawn

/-! ## Numbered stores -/

/-- The counter follows the draws, and what is registered was drawn before. -/
structure Numbered (s : System W) : Prop where
  counter : s.store.nextIdCounter = UInt64.ofNat (1000 + s.idsDrawn)
  placements : ∀ id pd, s.store.placements.find id = some pd →
    id.value.toNat < 1000 + s.idsDrawn
  replicas : ∀ id rd, s.store.replicas.find id = some rd → id.value.toNat < 1000 + s.idsDrawn

namespace Numbered

variable {s : System W}

/-- The next identity, read as a number. -/
theorem counter_le (h : Numbered s) : s.store.nextIdCounter.toNat ≤ 1000 + s.idsDrawn := by
  rw [h.counter, UInt64.toNat_ofNat']
  exact Nat.mod_le _ _

/-- The counter tells how many identities were drawn. -/
theorem counter_eq (h : Numbered s) (hroom : 1000 + s.idsDrawn < 2 ^ 64) :
    s.store.nextIdCounter.toNat = 1000 + s.idsDrawn := by
  rw [h.counter, UInt64.toNat_ofNat']
  exact Nat.mod_eq_of_lt hroom

/-- Before the counter wraps around, the next placement is new. -/
theorem placement_fresh (h : Numbered s) (hroom : 1000 + s.idsDrawn < 2 ^ 64) :
    s.store.placements.find ⟨s.store.nextIdCounter⟩ = none := by
  cases hfind : s.store.placements.find ⟨s.store.nextIdCounter⟩ with
  | none => rfl
  | some pd =>
      have hlt := h.placements _ _ hfind
      rw [h.counter_eq hroom] at hlt
      omega

/-- Before the counter wraps around, the next replica is new. -/
theorem replica_fresh (h : Numbered s) (hroom : 1000 + s.idsDrawn < 2 ^ 64) :
    s.store.replicas.find ⟨s.store.nextIdCounter⟩ = none := by
  cases hfind : s.store.replicas.find ⟨s.store.nextIdCounter⟩ with
  | none => rfl
  | some rd =>
      have hlt := h.replicas _ _ hfind
      rw [h.counter_eq hroom] at hlt
      omega

theorem fresh {options : StoreOptions} {backends : UnorderedMap StorageBackendId (IBackend W)}
    {w : W} : Numbered (System.fresh options backends w) where
  counter := rfl
  placements _ _ hfind := by simp [System.fresh, Store.create] at hfind
  replicas _ _ hfind := by simp [System.fresh, Store.create] at hfind

/-- Starting a publication draws the identity of its replica. -/
theorem start (h : Numbered s) : Numbered (Publishing.start s).system where
  counter := by
    show s.store.nextIdCounter + 1 = UInt64.ofNat (1000 + (s.idsDrawn + 1))
    rw [h.counter, ← Nat.add_assoc, UInt64.ofNat_add (1000 + s.idsDrawn)]
    rfl
  placements id pd hfind := Nat.lt_succ_of_lt (h.placements id pd hfind)
  replicas id rd hfind := Nat.lt_succ_of_lt (h.replicas id rd hfind)

end Numbered

section Publishing

variable {underlay : IBackend W} {slice : ChunkSlice}

/-- Acquiring a chunk touches neither the counter nor what is numbered. -/
theorem Numbered.acquired {p q : Publishing W} {blobId : BlobId} (h : Numbered p.system)
    (hacquired : Acquired underlay slice p blobId q) : Numbered q.system := by
  obtain ⟨t, c, hstore⟩ := hacquired.store_eq
  have hdrawn := hacquired.ids_drawn
  refine ⟨?_, ?_, ?_⟩
  · rw [hstore, hdrawn]
    exact h.counter
  · rw [hstore, hdrawn]
    exact h.placements
  · rw [hstore, hdrawn]
    exact h.replicas

/-- Recording a chunk draws the identity of its placement. -/
theorem Numbered.record_chunk {q : Publishing W} (h : Numbered q.system) (blobId : BlobId) :
    Numbered (recordChunk slice blobId q).system where
  counter := h.start.counter
  placements id pd hfind := by
    have hfind' : (q.system.store.placements.emplace ⟨q.system.store.nextIdCounter⟩
      (newPlacement ⟨q.system.store.nextIdCounter⟩ q.locals.replicaId
        q.system.store.primaryBackendId (byteSize slice.bytes))).find id = some pd := hfind
    rw [UnorderedMap.find_emplace] at hfind'
    by_cases hid : id = ⟨q.system.store.nextIdCounter⟩
    · rw [hid]
      exact Nat.lt_succ_of_le h.counter_le
    · rw [if_neg hid] at hfind'
      exact Nat.lt_succ_of_lt (h.placements id pd hfind')
  replicas id rd hfind := Nat.lt_succ_of_lt (h.replicas id rd hfind)

/-- The chunk loop keeps the numbering. -/
theorem Numbered.rounds {slices : List ChunkSlice} {p p' : Publishing W} (h : Numbered p.system)
    (hrounds : Rounds underlay slices p p') : Numbered p'.system := by
  induction hrounds with
  | nil p => exact h
  | cons hacquired _ ih => exact ih ((h.acquired hacquired).record_chunk _)

end Publishing

/-- So does a publication. -/
theorem Published.numbered {env : Env} {descriptor : CheckpointDescriptor} {data : Bytes}
    {s s' : System W} (h : Published env descriptor data s s') (hs : Numbered s) : Numbered s' := by
  cases h with
  | @intro underlay slices p w _ _ hrounds _ _ =>
      have hloop := hs.start.rounds hrounds
      have hdrawn := hrounds.ids_drawn
      refine ⟨hloop.start.counter, hloop.start.placements, fun id rd hfind => ?_⟩
      have hfind' : (p.system.store.replicas.emplace p.locals.replicaId
        (newReplica p.locals.replicaId p.system.store.primaryBackendId
          p.locals.writeSize)).find id = some rd := hfind
      rw [UnorderedMap.find_emplace] at hfind'
      by_cases hid : id = p.locals.replicaId
      · -- The replica was drawn first of all.
        have hreplica : id.value.toNat ≤ 1000 + s.idsDrawn := by
          rw [hid, hrounds.replica_id]
          exact hs.counter_le
        simp only [Publishing.start] at hdrawn ⊢
        omega
      · rw [if_neg hid] at hfind'
        exact Nat.lt_succ_of_lt (hloop.replicas id rd hfind')

theorem PublishFailed.numbered {env : Env} {descriptor : CheckpointDescriptor} {data : Bytes}
    {s s' : System W} (h : PublishFailed env descriptor data s s') (hs : Numbered s) :
    Numbered s' := by
  cases h with
  | rejected => exact ⟨hs.counter, hs.placements, hs.replicas⟩
  | @interrupted underlay done rest p s₁ w _ _ hrounds hstopped _ =>
      have hloop := hs.start.rounds hrounds
      obtain ⟨c, hstore⟩ := hstopped.store_eq
      have hdrawn := hstopped.ids_drawn
      refine ⟨?_, ?_, ?_⟩
      · simp only [System.rolledBack, hstore, hdrawn]
        exact hloop.counter
      · simp only [System.rolledBack, hstore, hdrawn]
        exact hloop.placements
      · simp only [System.rolledBack, hstore, hdrawn]
        exact hloop.replicas

/-- Every step but a restart keeps the numbering. -/
theorem Transition.numbered {env : Env} {R : W → W → Prop} {s s' : System W} {e : Event W}
    (h : Transition env R s e s') (hreopens : e.reopens = false) (hs : Numbered s) :
    Numbered s' := by
  cases h with
  | quiet _ h =>
      obtain ⟨k, hcounter, hdrawn⟩ := h.drawn
      refine ⟨?_, fun id pd hfind => ?_, fun id rd hfind => ?_⟩
      · rw [hcounter, hdrawn, hs.counter, ← Nat.add_assoc, UInt64.ofNat_add (1000 + s.idsDrawn)]
      · rw [h.placements id] at hfind
        have hlt := hs.placements id pd hfind
        omega
      · have hcontent := h.replicas id
        rw [hfind] at hcontent
        obtain ⟨rd₀, hfind₀, _⟩ := Option.map_eq_some_iff.mp hcontent.symm
        have hlt := hs.replicas id rd₀ hfind₀
        omega
  | published h => exact h.numbered hs
  | publishFailed h => exact h.numbered hs
  | gcRan h =>
      obtain ⟨_, _, _, _, _, hstore⟩ := h.store_eq
      have hdrawn := h.ids_drawn
      refine ⟨?_, ?_, ?_⟩
      · rw [hstore, hdrawn]
        exact hs.counter
      · rw [hstore, hdrawn]
        exact hs.placements
      · rw [hstore, hdrawn]
        exact hs.replicas
  | reopened => simp [Event.reopens] at hreopens

/-- Whatever the backends do, a run without a restart keeps the numbering. -/
theorem numbered_run {env : Env} {options : StoreOptions}
    {backends : UnorderedMap StorageBackendId (IBackend W)} {w : W} {events : List (Event W)}
    {s : System W} (hrun : Run (Step env Anything) (.fresh options backends w) events s)
    (hreopens : ∀ e ∈ events, e.reopens = false) : Numbered s := by
  refine Run.invariant_on (fun _ s => Numbered s) .fresh ?_ hrun hreopens
  intro _ s e s' _ hs hreopens hstep
  exact (step_transition (all_look_anything s) hstep).numbered hreopens hs

theorem add_one_add_of_nat (counter : UInt64) (n : Nat) :
    counter + 1 + UInt64.ofNat n = counter + UInt64.ofNat (n + 1) := by
  rw [UInt64.ofNat_add n 1, UInt64.add_comm (UInt64.ofNat n), ← UInt64.add_assoc]
  rfl

/-- Calls of `make_full_descriptor` do nothing but draw identities and read the clock. -/
theorem call_all_make_full_descriptor (env : Env) {s : System W} {family : CheckpointFamilyId}
    {next : CheckpointGeneration}
    (hnext : s.store.nextCheckpointGeneration.find family = some next) (owner : OwnerId)
    (logicalSize : UInt64) (durability : DurabilityClass) (n : Nat) :
    callAll env s (List.replicate n (.makeFullDescriptor family owner logicalSize durability)) =
      { s with
        ticks := s.ticks + n
        idsDrawn := s.idsDrawn + n
        store := { s.store with nextIdCounter := s.store.nextIdCounter + UInt64.ofNat n } } := by
  induction n generalizing s with
  | zero =>
      show s = { s with store := { s.store with nextIdCounter := s.store.nextIdCounter + 0 } }
      rw [UInt64.add_zero]
  | succ n ih =>
      let s₁ : System W := { s with
        ticks := s.ticks + 1
        idsDrawn := s.idsDrawn + 1
        store := { s.store with nextIdCounter := s.store.nextIdCounter + 1 } }
      have hcall : finalState ((Op.makeFullDescriptor family owner logicalSize durability).run env
          s) = s₁ := by
        refine post_final (P := fun _ s' => s' = _) ?_
        simp only [Op.run, makeFullDescriptor, post_map, post_bind, post_get, hnext, post_next_id,
          post_now, post_pure]
        rfl
      rw [List.replicate_succ, callAll, List.foldl_cons, hcall]
      refine (ih (s := s₁) hnext).trans ?_
      simp only [s₁, add_one_add_of_nat, Nat.add_assoc, Nat.add_comm 1 n]

end CheckpointStore
