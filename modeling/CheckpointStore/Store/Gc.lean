import CheckpointStore.Store.Retention

/-!
# Garbage collection

After `gc.cpp`. `gc_run` computes the protected set twice, sweeps the checkpoints that were
eligible under the first one, and reclaims the blobs of the last plan that are not reachable
under the second one and have no reference left.

The inversion of the sweep is `sweep` itself, a function of the store. `Reclaimed` is what one
round of the reclaim loop can do, and `GcRan` what a whole `gc_run` can do, whether it returns
or a `remove` throws in the middle (`post_gc_run`).
-/

namespace CheckpointStore

open Foundation Foundation.Procedure

variable {W : Type}

/-- The report of a collection. -/
structure GcRunResult where
  epoch : GcEpochId
  generation : GcGeneration
  markedBytes : UInt64 := 0
  reclaimedBlobs : List BlobId := []
  reclaimedBytes : UInt64 := 0
  dereferencedBlobs : UInt64 := 0
  notes : List String := []

/-! ## The source -/

/-- The elements of a list as an ordered set. -/
def blobSet (ids : List BlobId) : List BlobId :=
  ids.dedup.insertionSort fun a b => a.value ≤ b.value

/-- `compute_reachable`: the blobs of the retained checkpoints. -/
def computeReachable (recs : List CheckpointRecord) (retained : List CheckpointId) :
    List BlobId :=
  blobSet ((recs.filter fun rec => rec.descriptor.id ∈ retained).flatMap fun rec =>
    rec.chunks.map ChunkDescriptor.blobId)

/-- The garbage-collection state after planning with the given reachable blobs. -/
def plannedGc (store : Store W) (epoch : GcEpochId) (reachable : List BlobId) : GcState :=
  { store.gc with
    epoch := epoch
    generation := store.gc.generation.next
    phase := .marking
    reachableBlobs := reachable
    markedBytes := reachable.foldl (fun total b => match store.blobs.find b with
      | some bd => total + bd.physicalSize
      | none => total) 0
    reclaimableBlobs := (store.blobs.entries.map Prod.fst).filter fun bid => bid ∉ reachable
    freshness := .current }

/-- `CheckpointStore::gc_plan`. -/
def gcPlan (env : Env) : Proc (System W) GcRunResult := do
  let _ ← gcEligibleCheckpoints env
  let retained ← computeProtectedSet env
  let s ← get
  let reachable := computeReachable s.store.checkpoints.values retained
  let epoch ← nextId
  let gc := plannedGc s.store ⟨epoch⟩ reachable
  modifyStore fun store => { store with gc := gc }
  pure { epoch := gc.epoch, generation := gc.generation, markedBytes := gc.markedBytes }

/-- Release one reference for every chunk. -/
def releaseChunks (chunks : List ChunkDescriptor) (t : DedupTable) : DedupTable :=
  chunks.foldl (fun t cd => (t.releaseReference cd.digest).2) t

/-- Sweep one eligible checkpoint, unless it has been swept. -/
def sweepCheckpoint (store : Store W) (cid : CheckpointId) : Store W :=
  match store.checkpoints.find cid with
  | none => store
  | some rec =>
      if rec.lifecycle = .gcEligible ∨ rec.lifecycle = .deleted then store
      else { store with
        dedup := releaseChunks rec.chunks store.dedup
        checkpoints := store.checkpoints.modify cid fun rec => { rec with lifecycle := .deleted }
        counters := if 0 < store.counters.gcEligibleCheckpoints then
            { store.counters with
              gcEligibleCheckpoints := store.counters.gcEligibleCheckpoints - 1 }
          else store.counters }

/-- The sweep loop. -/
def sweep (eligible : List CheckpointId) (store : Store W) : Store W :=
  eligible.foldl sweepCheckpoint store

/-- How many checkpoints the sweep loop dereferences. -/
def sweptCount (eligible : List CheckpointId) (store : Store W) : UInt64 :=
  UInt64.ofNat ((eligible.filter fun cid => match store.checkpoints.find cid with
    | none => false
    | some rec => rec.lifecycle ≠ .gcEligible ∧ rec.lifecycle ≠ .deleted).length)

/-- Remove the object of a blob from the backend of every replica: whether any, and whether
all, of them answered that it was removed. -/
def removeReplicas (digest : Digest) :
    List ReplicaId → Bool → Bool → Proc (System W) (Bool × Bool)
  | [], removedAny, allRemoved => pure (removedAny, allRemoved)
  | rid :: rest, removedAny, allRemoved => do
      let s ← get
      match s.store.replicas.find rid with
      | none => removeReplicas digest rest removedAny allRemoved
      | some rd =>
          match s.store.backends.find rd.backendId with
          | none => removeReplicas digest rest removedAny false
          | some b => do
              let removed ← removeObject rd.backendId b (blobKey digest)
              removeReplicas digest rest (removedAny || removed) (allRemoved && removed)

/-- The store after the object of a blob was removed somewhere, or nowhere. -/
def forgetBlob (bid : BlobId) (bd : BlobDescriptor) (removedAny : Bool) (store : Store W) :
    Store W :=
  { store with
    dedup := if removedAny then (store.dedup.releaseUntilOrphan bd.digest).2 else store.dedup
    counters := if removedAny then
        { store.counters with
          reclaimedBlobs := store.counters.reclaimedBlobs + 1
          reclaimedBytes := store.counters.reclaimedBytes + bd.physicalSize }
      else store.counters
    blobs := store.blobs.erase bid }

/-- The result after the object of a blob was removed somewhere, or nowhere. -/
def GcRunResult.reclaimed (result : GcRunResult) (bid : BlobId) (bd : BlobDescriptor)
    (removedAny allRemoved : Bool) : GcRunResult :=
  { result with
    reclaimedBlobs := if removedAny then result.reclaimedBlobs ++ [bid] else result.reclaimedBlobs
    reclaimedBytes :=
      if removedAny then result.reclaimedBytes + bd.physicalSize else result.reclaimedBytes
    notes := if allRemoved then result.notes
      else result.notes ++ ["partial removal; retry in next pass"] }

/-- One round of the reclaim loop. -/
def reclaimBlob (reachable : List BlobId) (bid : BlobId) (result : GcRunResult) :
    Proc (System W) GcRunResult := do
  let s ← get
  if bid ∈ reachable then
    pure { result with
      notes := result.notes ++ ["deferred: blob reachable in current snapshot"] }
  else match s.store.blobs.find bid with
    | none => pure result
    | some bd =>
        if s.store.dedup.refcount bd.digest ≠ 0 then
          pure { result with notes := result.notes ++ ["deferred: refcount not zero"] }
        else do
          let removed ← removeReplicas bd.digest bd.replicas false true
          modifyStore (forgetBlob bid bd removed.1)
          pure (result.reclaimed bid bd removed.1 removed.2)

/-- The reclaim loop. -/
def reclaimBlobs (reachable : List BlobId) :
    List BlobId → GcRunResult → Proc (System W) GcRunResult
  | [], result => pure result
  | bid :: rest, result => do
      let result ← reclaimBlob reachable bid result
      reclaimBlobs reachable rest result

/-- The end of `gc_run`. -/
def gcCompleted (store : Store W) : Store W :=
  { store with
    gc := { store.gc with phase := .complete, reclaimableBlobs := [], reachableBlobs := [] }
    counters := { store.counters with
      blobCount := UInt64.ofNat store.blobs.size
      uniquePhysicalBytes := store.dedup.uniquePhysicalBytes } }

/-- `CheckpointStore::gc_run`. -/
def gcRun (env : Env) : Proc (System W) GcRunResult := do
  let eligible ← gcEligibleCheckpoints env
  let retained ← computeProtectedSet env
  let s ← get
  let reachable := computeReachable s.store.checkpoints.values retained
  modifyStore (sweep eligible)
  let result ← reclaimBlobs reachable s.store.gc.reclaimableBlobs {
    epoch := s.store.gc.epoch, generation := s.store.gc.generation
    dereferencedBlobs := sweptCount eligible s.store }
  modifyStore gcCompleted
  pure result

/-! ## What the functions can do -/

/-- The set has the listed blobs. -/
theorem mem_blob_set {ids : List BlobId} {b : BlobId} : b ∈ blobSet ids ↔ b ∈ ids := by
  simp [blobSet, List.mem_insertionSort]

/-- A blob is reachable exactly when a retained checkpoint has a chunk stored in it. -/
theorem mem_compute_reachable {recs : List CheckpointRecord} {retained : List CheckpointId}
    {b : BlobId} :
    b ∈ computeReachable recs retained ↔
      ∃ rec ∈ recs, rec.descriptor.id ∈ retained ∧ ∃ cd ∈ rec.chunks, cd.blobId = b := by
  simp only [computeReachable, mem_blob_set, List.mem_flatMap, List.mem_filter, List.mem_map,
    decide_eq_true_eq]
  constructor
  · rintro ⟨rec, ⟨hrec, hretained⟩, hchunk⟩
    exact ⟨rec, hrec, hretained, hchunk⟩
  · rintro ⟨rec, hrec, hretained, hchunk⟩
    exact ⟨rec, ⟨hrec, hretained⟩, hchunk⟩

/-- A plan: the protected set was computed at some clock position, and what its checkpoints do
not reach is to be reclaimed. -/
inductive Planned (env : Env) (s : System W) : System W → Prop where
  | intro {retained : List CheckpointId} {s₁ s₂ : System W} {n : Nat} (epoch : GcEpochId)
      (hclock : ClockOnly s s₁) (hretained : computeProtectedSet env s₁ = .ok retained s₂) :
      Planned env s { s with
        ticks := n
        idsDrawn := s.idsDrawn + 1
        store := { s.store with
          nextIdCounter := s.store.nextIdCounter + 1
          gc := plannedGc s.store epoch (computeReachable s.store.checkpoints.values retained) } }

/-- `gc_plan` changes the plan, draws one identity and reads the clock. -/
theorem post_gc_plan (env : Env) (s : System W) :
    Post (gcPlan env) s (fun _ s' => Planned env s s') (fun _ _ => False) := by
  simp only [gcPlan, post_bind, post_get, post_next_id, post_modify_store, post_pure]
  refine (returns_gc_eligible_checkpoints env).post fun _ s₁ _ hs₁ => ?_
  refine (returns_compute_protected_set env).post fun retained s₂ hretained hs₂ => ?_
  obtain ⟨n, rfl⟩ := trans_of ClockOnly hs₁ hs₂
  exact .intro _ hs₁ hretained

/-- The replica is known and its backend is registered. -/
def Registered (store : Store W) (rid : ReplicaId) : Prop :=
  ∃ rd, store.replicas.find rid = some rd ∧ store.backends.find rd.backendId ≠ none

/-- Calls of `remove` for one key on the backends of some replicas, none of which throws. The
flags say whether any call so far has answered `true`. -/
inductive RemoveCalls (store : Store W) (key : BackendKey) :
    List ReplicaId → Bool → W → Bool → W → Prop where
  | done (removedAny : Bool) (w : W) : RemoveCalls store key [] removedAny w removedAny w
  | skip {rid : ReplicaId} {rest : List ReplicaId} {removedAny final : Bool} {w w' : W}
      (hunknown : ¬ Registered store rid)
      (hrest : RemoveCalls store key rest removedAny w final w') :
      RemoveCalls store key (rid :: rest) removedAny w final w'
  | call {rid : ReplicaId} {rest : List ReplicaId} {rd : ReplicaDescriptor} {b : IBackend W}
      {removedAny removed final : Bool} {w w₁ w' : W}
      (hreplica : store.replicas.find rid = some rd)
      (hbackend : store.backends.find rd.backendId = some b)
      (hremove : b.remove key w = .ok removed w₁)
      (hrest : RemoveCalls store key rest (removedAny || removed) w₁ final w') :
      RemoveCalls store key (rid :: rest) removedAny w final w'

/-- A part of a trace in which one key was removed and nothing else happened. -/
def RemovalsOf (key : BackendKey) (calls : List Observation) : Prop :=
  ∀ o ∈ calls, ∃ id, o = .removing id key

/-- The calls for the replicas of a blob all returned. -/
def ReplicasRemoved (digest : Digest) (rids : List ReplicaId) (removedAny : Bool) (s : System W)
    (final : Bool) (s' : System W) : Prop :=
  ∃ w calls, RemovalsOf (blobKey digest) calls ∧
    RemoveCalls s.store (blobKey digest) rids removedAny s.world final w ∧
    s' = { s with world := w, trace := s.trace ++ calls }

/-- One of the calls for the replicas of a blob threw. -/
def ReplicasThrew (digest : Digest) (removedAny : Bool) (s s' : System W) : Prop :=
  ∃ asked final w₁ w calls id b exn, RemovalsOf (blobKey digest) calls ∧
    RemoveCalls s.store (blobKey digest) asked removedAny s.world final w₁ ∧
    s.store.backends.find id = some b ∧ b.remove (blobKey digest) w₁ = .error exn w ∧
    s' = { s with world := w, trace := s.trace ++ calls }

/-- One more removal of the same key. -/
theorem RemovalsOf.cons {key : BackendKey} {calls : List Observation} (id : StorageBackendId)
    (h : RemovalsOf key calls) : RemovalsOf key (.removing id key :: calls) := by
  intro o ho
  rcases List.mem_cons.mp ho with rfl | hin
  · exact ⟨id, rfl⟩
  · exact h o hin

/-- The calls for the replicas of a blob all return, or one of them throws. -/
theorem post_remove_replicas (digest : Digest) (rids : List ReplicaId)
    (removedAny allRemoved : Bool) (s : System W) :
    Post (removeReplicas digest rids removedAny allRemoved) s
      (fun removed s' => ReplicasRemoved digest rids removedAny s removed.1 s')
      (fun _ s' => ReplicasThrew digest removedAny s s') := by
  induction rids generalizing removedAny allRemoved s with
  | nil => exact ⟨s.world, [], by simp [RemovalsOf], .done _ _, by simp⟩
  | cons rid rest ih =>
      -- A replica that leads to no backend is passed over.
      have hskip : ¬ Registered s.store rid → ∀ all,
          Post (removeReplicas digest rest removedAny all)
          s (fun removed s' => ReplicasRemoved digest (rid :: rest) removedAny s removed.1 s')
          (fun _ s' => ReplicasThrew digest removedAny s s') := by
        intro hunknown all
        refine (ih removedAny all s).mono (fun _ s' hs' => ?_) (fun _ s' hs' => hs')
        obtain ⟨w, calls, hcalls, hrun, rfl⟩ := hs'
        exact ⟨w, calls, hcalls, .skip hunknown hrun, rfl⟩
      simp only [removeReplicas, post_bind, post_get]
      cases hreplica : s.store.replicas.find rid with
      | none => exact hskip (by simp [Registered, hreplica]) _
      | some rd =>
          simp only
          cases hbackend : s.store.backends.find rd.backendId with
          | none => exact hskip (by simp [Registered, hreplica, hbackend]) _
          | some b =>
              simp only [post_bind, post_remove_object]
              refine post_of_runs (fun removed w₁ hremove => ?_) (fun exn w₁ hremove => ?_)
              · refine (ih _ _ _).mono (fun final s' hs' => ?_) (fun _ s' hs' => ?_)
                · obtain ⟨w, calls, hcalls, hrun, rfl⟩ := hs'
                  exact ⟨w, _, hcalls.cons rd.backendId, .call hreplica hbackend hremove hrun,
                    by simp⟩
                · obtain ⟨asked, final, w₂, w, calls, id, b', exn, hcalls, hrun, hb', hthrow,
                    rfl⟩ := hs'
                  exact ⟨rid :: asked, final, w₂, w, _, id, b', exn, hcalls.cons rd.backendId,
                    .call hreplica hbackend hremove hrun, hb', hthrow, by simp⟩
              · have hnone : RemovalsOf (blobKey digest) [] := by simp [RemovalsOf]
                exact ⟨[], removedAny, s.world, w₁, _, rd.backendId, b, exn,
                  hnone.cons rd.backendId, .done _ _, hbackend, hremove, rfl⟩

/-- What one round of the reclaim loop does when it returns: nothing, for one of three reasons, or
it forgets a blob that is not reachable and has no reference. -/
inductive Reclaimed (reachable : List BlobId) (bid : BlobId) (s : System W) :
    System W → Prop where
  | deferred (hreason : bid ∈ reachable ∨ s.store.blobs.find bid = none ∨
      ∃ bd, s.store.blobs.find bid = some bd ∧ s.store.dedup.refcount bd.digest ≠ 0) :
      Reclaimed reachable bid s s
  | forgot {bd : BlobDescriptor} {removedAny : Bool} {w : W} {calls : List Observation}
      (hreach : bid ∉ reachable) (hfind : s.store.blobs.find bid = some bd)
      (hcount : s.store.dedup.refcount bd.digest = 0)
      (hcalls : RemoveCalls s.store (blobKey bd.digest) bd.replicas false s.world removedAny w)
      (htrace : RemovalsOf (blobKey bd.digest) calls) :
      Reclaimed reachable bid s
        { s with
          world := w
          trace := s.trace ++ calls
          store := forgetBlob bid bd removedAny s.store }

/-- What one round of the reclaim loop does when a `remove` throws. -/
inductive ReclaimThrew (reachable : List BlobId) (bid : BlobId) (s : System W) :
    System W → Prop where
  | intro {bd : BlobDescriptor} {asked : List ReplicaId} {removedAny : Bool} {w₁ w : W}
      {calls : List Observation} {id : StorageBackendId} {b : IBackend W} {exn : Exn}
      (hreach : bid ∉ reachable) (hfind : s.store.blobs.find bid = some bd)
      (hcount : s.store.dedup.refcount bd.digest = 0)
      (hcalls : RemoveCalls s.store (blobKey bd.digest) asked false s.world removedAny w₁)
      (hbackend : s.store.backends.find id = some b)
      (hthrow : b.remove (blobKey bd.digest) w₁ = .error exn w)
      (htrace : RemovalsOf (blobKey bd.digest) calls) :
      ReclaimThrew reachable bid s { s with world := w, trace := s.trace ++ calls }

/-- One round of the reclaim loop. -/
theorem post_reclaim_blob (reachable : List BlobId) (bid : BlobId) (result : GcRunResult)
    (s : System W) :
    Post (reclaimBlob reachable bid result) s (fun _ s' => Reclaimed reachable bid s s')
      (fun _ s' => ReclaimThrew reachable bid s s') := by
  simp only [reclaimBlob, post_bind, post_get, post_ite, post_pure]
  refine ⟨fun hin => .deferred (Or.inl hin), fun hreach => ?_⟩
  cases hfind : s.store.blobs.find bid with
  | none => exact .deferred (Or.inr (Or.inl hfind))
  | some bd =>
      simp only [post_ite, post_pure, post_bind, post_modify_store]
      refine ⟨fun hcount => .deferred (Or.inr (Or.inr ⟨bd, hfind, hcount⟩)), fun hcount => ?_⟩
      refine (post_remove_replicas bd.digest bd.replicas false true s).mono
        (fun removed s' hs' => ?_) (fun exn s' hs' => ?_)
      · obtain ⟨w, calls, htrace, hcalls, rfl⟩ := hs'
        exact .forgot hreach hfind (by simpa using hcount) hcalls htrace
      · obtain ⟨asked, any, w₁, w, calls, id, b, exn, htrace, hcalls, hbackend, hthrow, rfl⟩ := hs'
        exact .intro hreach hfind (by simpa using hcount) hcalls hbackend hthrow htrace

/-- Rounds of the reclaim loop, one after the other. -/
inductive Reclaims (reachable : List BlobId) : List BlobId → System W → System W → Prop where
  | nil (s : System W) : Reclaims reachable [] s s
  | cons {bid : BlobId} {rest : List BlobId} {s s₁ s' : System W}
      (hround : Reclaimed reachable bid s s₁) (hrest : Reclaims reachable rest s₁ s') :
      Reclaims reachable (bid :: rest) s s'

/-- The loop: all rounds, or those before the one that threw. -/
theorem post_reclaim_blobs (reachable bids : List BlobId) (result : GcRunResult)
    (s : System W) :
    Post (reclaimBlobs reachable bids result) s (fun _ s' => Reclaims reachable bids s s')
      (fun _ s' => ∃ done bid rest s₁, bids = done ++ bid :: rest ∧
        Reclaims reachable done s s₁ ∧ ReclaimThrew reachable bid s₁ s') := by
  induction bids generalizing result s with
  | nil => exact .nil s
  | cons bid rest ih =>
      simp only [reclaimBlobs, post_bind]
      refine (post_reclaim_blob reachable bid result s).mono (fun result' s₁ hround => ?_)
        (fun _ s' hthrew => ⟨[], bid, rest, s, rfl, .nil s, hthrew⟩)
      refine (ih result' s₁).mono (fun _ s' hrest => .cons hround hrest) (fun _ s' hs' => ?_)
      obtain ⟨done, bid', later, s₂, rfl, hrest, hthrew⟩ := hs'
      exact ⟨bid :: done, bid', later, s₂, rfl, .cons hround hrest, hthrew⟩

/-- A `gc_run`, whether it returns or a `remove` throws: the checkpoints eligible under the
first protected set are swept, then planned blobs not reachable from the second are reclaimed. -/
inductive GcRan (env : Env) (s : System W) : System W → Prop where
  | completed {eligible retained : List CheckpointId} {s₁ s₂ s₃ : System W}
      (heligible : gcEligibleCheckpoints env s = .ok eligible s₁)
      (hretained : computeProtectedSet env s₁ = .ok retained s₂)
      (hreclaims : Reclaims (computeReachable s.store.checkpoints.values retained)
        s.store.gc.reclaimableBlobs { s₂ with store := sweep eligible s.store } s₃) :
      GcRan env s { s₃ with store := gcCompleted s₃.store }
  | interrupted {eligible retained : List CheckpointId} {s₁ s₂ s₃ s₄ : System W}
      {done rest : List BlobId} {bid : BlobId}
      (heligible : gcEligibleCheckpoints env s = .ok eligible s₁)
      (hretained : computeProtectedSet env s₁ = .ok retained s₂)
      (hplan : s.store.gc.reclaimableBlobs = done ++ bid :: rest)
      (hreclaims : Reclaims (computeReachable s.store.checkpoints.values retained) done
        { s₂ with store := sweep eligible s.store } s₃)
      (hthrew : ReclaimThrew (computeReachable s.store.checkpoints.values retained) bid s₃ s₄) :
      GcRan env s s₄

/-- A `gc_run` that returned, which is the first of the two. -/
def GcReturned (env : Env) (s s' : System W) : Prop :=
  ∃ eligible retained s₁ s₂ s₃, gcEligibleCheckpoints env s = .ok eligible s₁ ∧
    computeProtectedSet env s₁ = .ok retained s₂ ∧
    Reclaims (computeReachable s.store.checkpoints.values retained) s.store.gc.reclaimableBlobs
      { s₂ with store := sweep eligible s.store } s₃ ∧
    s' = { s₃ with store := gcCompleted s₃.store }

/-- A collection that returned is one that ran. -/
theorem GcReturned.ran {env : Env} {s s' : System W} (h : GcReturned env s s') :
    GcRan env s s' := by
  obtain ⟨_, _, _, _, _, heligible, hretained, hreclaims, rfl⟩ := h
  exact .completed heligible hretained hreclaims

/-- The two computations of the protected set only read the clock. -/
theorem protected_sets_clock_only {env : Env} {s s₁ s₂ : System W}
    {eligible retained : List CheckpointId}
    (heligible : gcEligibleCheckpoints env s = .ok eligible s₁)
    (hretained : computeProtectedSet env s₁ = .ok retained s₂) : ∃ n, s₂ = { s with ticks := n } :=
  trans_of ClockOnly (Returns.of_ok (returns_gc_eligible_checkpoints env) heligible)
    (Returns.of_ok (returns_compute_protected_set env) hretained)

/-! ## What a collection leaves alone -/

/-- What the sweep can change in the store. -/
theorem sweep_store_eq (eligible : List CheckpointId) (store : Store W) :
    ∃ t checkpoints c, sweep eligible store =
      { store with dedup := t, checkpoints := checkpoints, counters := c } := by
  unfold sweep
  induction eligible generalizing store with
  | nil => exact ⟨_, _, _, rfl⟩
  | cons cid rest ih =>
      obtain ⟨t, checkpoints, c, hrest⟩ := ih (sweepCheckpoint store cid)
      refine ⟨t, checkpoints, c, ?_⟩
      rw [List.foldl_cons, hrest]
      unfold sweepCheckpoint
      cases store.checkpoints.find cid with
      | none => rfl
      | some rec =>
          simp only
          split <;> rfl

/-- A record after it was swept. -/
def CheckpointRecord.swept (rec : CheckpointRecord) : CheckpointRecord :=
  if rec.lifecycle = .gcEligible ∨ rec.lifecycle = .deleted then rec
  else { rec with lifecycle := .deleted }

/-- A swept record is eligible or deleted. -/
theorem swept_lifecycle (rec : CheckpointRecord) :
    rec.swept.lifecycle = .gcEligible ∨ rec.swept.lifecycle = .deleted := by
  unfold CheckpointRecord.swept
  split
  · assumption
  · exact Or.inr rfl

/-- Sweeping a record twice is sweeping it once. -/
theorem swept_swept (rec : CheckpointRecord) : rec.swept.swept = rec.swept := by
  conv_lhs => rw [CheckpointRecord.swept]
  exact if_pos (swept_lifecycle rec)

/-- A swept record keeps its other fields. -/
theorem swept_cases (rec : CheckpointRecord) :
    rec.swept = rec ∨ rec.swept = { rec with lifecycle := .deleted } := by
  unfold CheckpointRecord.swept
  split
  · exact Or.inl rfl
  · exact Or.inr rfl

/-- Sweeping a checkpoint changes its own record only. -/
theorem find_sweep_checkpoint (store : Store W) (cid id : CheckpointId) :
    (sweepCheckpoint store cid).checkpoints.find id =
      if id = cid then (store.checkpoints.find id).map CheckpointRecord.swept
      else store.checkpoints.find id := by
  unfold sweepCheckpoint
  cases hcid : store.checkpoints.find cid with
  | none =>
      by_cases hid : id = cid
      · simp [hid, hcid]
      · simp [hid]
  | some rec =>
      dsimp only
      by_cases hid : id = cid
      · subst hid
        by_cases hswept : rec.lifecycle = .gcEligible ∨ rec.lifecycle = .deleted
        · simp [hswept, hcid, CheckpointRecord.swept]
        · simp [hswept, hcid, CheckpointRecord.swept, UnorderedMap.find_modify]
      · by_cases hswept : rec.lifecycle = .gcEligible ∨ rec.lifecycle = .deleted
        · simp [hswept, hid]
        · simp [hswept, hid, UnorderedMap.find_modify]

/-- The records after a sweep. -/
theorem find_sweep_eq (eligible : List CheckpointId) (store : Store W) (id : CheckpointId) :
    (sweep eligible store).checkpoints.find id =
      if id ∈ eligible then (store.checkpoints.find id).map CheckpointRecord.swept
      else store.checkpoints.find id := by
  unfold sweep
  induction eligible generalizing store with
  | nil => simp
  | cons cid rest ih =>
      have htwice : CheckpointRecord.swept ∘ CheckpointRecord.swept = CheckpointRecord.swept :=
        funext swept_swept
      rw [List.foldl_cons, ih, find_sweep_checkpoint]
      by_cases hid : id = cid <;> by_cases hrest : id ∈ rest <;> simp [hid, hrest, htwice]

/-- A sweep keeps every record, as it was or marked as deleted. -/
theorem find_sweep (eligible : List CheckpointId) {store : Store W} {id : CheckpointId}
    {rec : CheckpointRecord} (hfind : store.checkpoints.find id = some rec) :
    (sweep eligible store).checkpoints.find id = some rec ∨
      (sweep eligible store).checkpoints.find id = some { rec with lifecycle := .deleted } := by
  rw [find_sweep_eq, hfind]
  split
  · exact (swept_cases rec).imp (congrArg some) (congrArg some)
  · exact Or.inl rfl

/-- A record after the sweep is as before, or deleted. -/
theorem sweep_record_cases {eligible : List CheckpointId} {store : Store W} {id : CheckpointId}
    {rec' : CheckpointRecord} (hfind : (sweep eligible store).checkpoints.find id = some rec') :
    ∃ rec, store.checkpoints.find id = some rec ∧
      (rec' = rec ∨ rec' = { rec with lifecycle := .deleted }) := by
  rw [find_sweep_eq] at hfind
  split at hfind
  · obtain ⟨rec, hrec, rfl⟩ := Option.map_eq_some_iff.mp hfind
    exact ⟨rec, hrec, swept_cases rec⟩
  · exact ⟨rec', hfind, Or.inl rfl⟩

/-- What does not look at the lifecycle reads the same in the records after a sweep. -/
theorem map_find_sweep {β : Type} {f : CheckpointRecord → β}
    (hf : ∀ rec, f { rec with lifecycle := .deleted } = f rec) (eligible : List CheckpointId)
    (store : Store W) (id : CheckpointId) :
    ((sweep eligible store).checkpoints.find id).map f = (store.checkpoints.find id).map f := by
  have hswept : f ∘ CheckpointRecord.swept = f := by
    funext rec
    rw [Function.comp_apply]
    rcases swept_cases rec with heq | heq
    · rw [heq]
    · rw [heq, hf]
  rw [find_sweep_eq]
  split
  · rw [Option.map_map, hswept]
  · rfl

/-- What the reclaim loop can change in the store. -/
theorem Reclaims.store_eq {reachable bids : List BlobId} {s s' : System W}
    (h : Reclaims reachable bids s s') :
    ∃ t c blobs, s'.store = { s.store with dedup := t, counters := c, blobs := blobs } := by
  induction h with
  | nil s => exact ⟨_, _, _, rfl⟩
  | cons hround _ ih =>
      obtain ⟨t, c, blobs, hrest⟩ := ih
      refine ⟨t, c, blobs, ?_⟩
      rw [hrest]
      cases hround with
      | deferred => rfl
      | forgot => rfl

/-- Every `gc_run` is of this form, and only a `remove` that throws makes it throw. -/
theorem post_gc_run_outcomes (env : Env) (s : System W) :
    Post (gcRun env) s (fun _ s' => GcReturned env s s')
      (fun _ s' => GcRan env s s' ∧ ∃ reachable bid s₁, s₁.store.backends = s.store.backends ∧
        ReclaimThrew reachable bid s₁ s') := by
  simp only [gcRun, post_bind, post_get, post_modify_store, post_pure]
  refine (returns_gc_eligible_checkpoints env).post fun eligible s₁ heligible hs₁ => ?_
  refine (returns_compute_protected_set env).post fun retained s₂ hretained hs₂ => ?_
  obtain ⟨n, rfl⟩ := trans_of ClockOnly hs₁ hs₂
  refine (post_reclaim_blobs _ _ _ _).mono (fun _ s₃ hreclaims => ?_) (fun _ s₄ hs₄ => ?_)
  · exact ⟨eligible, retained, s₁, _, s₃, heligible, hretained, hreclaims, rfl⟩
  · obtain ⟨done, bid, rest, s₃, hplan, hreclaims, hthrew⟩ := hs₄
    refine ⟨.interrupted heligible hretained hplan hreclaims hthrew, _, bid, s₃, ?_, hthrew⟩
    obtain ⟨_, _, _, hstore⟩ := hreclaims.store_eq
    obtain ⟨_, _, _, hsweep⟩ := sweep_store_eq eligible s.store
    simp only [hstore, hsweep]

/-- A collection, however it ends. -/
theorem post_gc_run (env : Env) (s : System W) :
    Post (gcRun env) s (fun _ s' => GcRan env s s') (fun _ s' => GcRan env s s') :=
  (post_gc_run_outcomes env s).mono (fun _ _ h => h.ran) (fun _ _ h => h.1)

/-- A `gc_run` changes the dedup table, the checkpoints, the blobs, the plan and the counters,
and nothing else of the store. -/
theorem GcRan.store_eq {env : Env} {s s' : System W} (h : GcRan env s s') :
    ∃ t checkpoints c blobs gc, s'.store =
      { s.store with
        dedup := t, checkpoints := checkpoints, counters := c, blobs := blobs, gc := gc } := by
  cases h with
  | @completed eligible _ _ _ s₃ _ _ hreclaims =>
      obtain ⟨t, c, blobs, hstore⟩ := hreclaims.store_eq
      obtain ⟨_, checkpoints, _, hsweep⟩ := sweep_store_eq eligible s.store
      refine ⟨t, checkpoints, (gcCompleted s₃.store).counters, blobs, (gcCompleted s₃.store).gc, ?_⟩
      simp only [gcCompleted, hstore, hsweep]
  | @interrupted eligible _ _ _ _ _ _ _ _ _ _ _ hreclaims hthrew =>
      obtain ⟨t, c, blobs, hstore⟩ := hreclaims.store_eq
      obtain ⟨_, checkpoints, _, hsweep⟩ := sweep_store_eq eligible s.store
      refine ⟨t, checkpoints, c, blobs, s.store.gc, ?_⟩
      cases hthrew with
      | intro => simp only [hstore, hsweep]

/-- A `gc_run` changes the records as the sweep of the eligible checkpoints does. -/
theorem GcRan.swept_eligible {env : Env} {s s' : System W} (h : GcRan env s s') :
    ∃ eligible s₁, gcEligibleCheckpoints env s = .ok eligible s₁ ∧
      s'.store.checkpoints = (sweep eligible s.store).checkpoints := by
  cases h with
  | @completed eligible _ s₁ _ _ heligible _ hreclaims =>
      obtain ⟨_, _, _, hstore⟩ := hreclaims.store_eq
      exact ⟨eligible, s₁, heligible, by simp only [gcCompleted, hstore]⟩
  | @interrupted eligible _ s₁ _ _ _ _ _ _ heligible _ _ hreclaims hthrew =>
      obtain ⟨_, _, _, hstore⟩ := hreclaims.store_eq
      refine ⟨eligible, s₁, heligible, ?_⟩
      cases hthrew with
      | intro => simp only [hstore]

/-- The records after a collection are those after its sweep. -/
theorem GcRan.checkpoints_eq {env : Env} {s s' : System W} (h : GcRan env s s') :
    ∃ eligible, s'.store.checkpoints = (sweep eligible s.store).checkpoints := by
  obtain ⟨eligible, _, _, hcheckpoints⟩ := h.swept_eligible
  exact ⟨eligible, hcheckpoints⟩

/-- A record after a collection is as before, or deleted. -/
theorem GcRan.record_cases {env : Env} {s s' : System W} (h : GcRan env s s') {id : CheckpointId}
    {rec' : CheckpointRecord} (hfind : s'.store.checkpoints.find id = some rec') :
    ∃ rec, s.store.checkpoints.find id = some rec ∧
      (rec' = rec ∨ rec' = { rec with lifecycle := .deleted }) := by
  obtain ⟨eligible, hcheckpoints⟩ := h.checkpoints_eq
  rw [hcheckpoints] at hfind
  exact sweep_record_cases hfind

/-- What does not look at the lifecycle reads the same in the records after a `gc_run`. -/
theorem GcRan.map_find {β : Type} {f : CheckpointRecord → β}
    (hf : ∀ rec, f { rec with lifecycle := .deleted } = f rec) {env : Env} {s s' : System W}
    (h : GcRan env s s') (id : CheckpointId) :
    (s'.store.checkpoints.find id).map f = (s.store.checkpoints.find id).map f := by
  obtain ⟨eligible, hcheckpoints⟩ := h.checkpoints_eq
  rw [hcheckpoints, map_find_sweep hf]

end CheckpointStore
