import CheckpointStore.Safety.Collection

/-!
# Objects that a collection leaves behind

A collection forgets a listed blob once it has asked the backends of its replicas to remove the
object, whatever they answer. Where every one of them is registered and clears the object whenever
its `remove` returns, an object that is still there belongs to a blob that is still in the table,
and a later collection can take it (`unremoved_blob_collectable`). An object that stays, because
its backend is not registered or because `remove` answers `false` and leaves it, is lost for good
(`refused_removal_forgets_blob`).

Which objects there are is left open: `present id key w` says that the backend `id` holds an object
under `key`. The one restriction, `RemovesOnly`, is that a `remove` concerns its own object only.
-/

namespace CheckpointStore

open Foundation Foundation.Procedure Foundation.UnorderedMap

variable {W : Type} {present : StorageBackendId → BackendKey → W → Prop}

/-- A `remove` of a registered backend makes no object appear, and leaves all others alone. -/
structure RemovesOnly (present : StorageBackendId → BackendKey → W → Prop) (store : Store W) :
    Prop where
  before : ∀ id b, store.backends.find id = some b → ∀ key w id' key',
    present id' key' (finalState (b.remove key w)) → present id' key' w
  others : ∀ id b, store.backends.find id = some b → ∀ key w id' key', ¬ (id' = id ∧ key' = key) →
    present id' key' w → present id' key' (finalState (b.remove key w))

/-- Whatever a `remove` of this key answers, the object is gone. -/
def Clears (present : StorageBackendId → BackendKey → W → Prop) (id : StorageBackendId)
    (b : IBackend W) (key : BackendKey) : Prop :=
  ∀ w removed w', b.remove key w = .ok removed w' → ¬ present id key w'

/-- Removing the object succeeds when it is there. -/
def Takes (present : StorageBackendId → BackendKey → W → Prop) (id : StorageBackendId)
    (b : IBackend W) (key : BackendKey) : Prop :=
  ∀ w, present id key w → ∃ w', b.remove key w = .ok true w' ∧ ¬ present id key w'

/-- Every known replica of a blob is on a registered backend that clears the blob's object. -/
def ReplicasClear (present : StorageBackendId → BackendKey → W → Prop) (store : Store W)
    (bd : BlobDescriptor) : Prop :=
  ∀ rid ∈ bd.replicas, ∀ rd, store.replicas.find rid = some rd →
    ∃ b, store.backends.find rd.backendId = some b ∧
      Clears present rd.backendId b (blobKey bd.digest)

/-! ## The calls for one blob -/

section Calls

variable {store : Store W} {key : BackendKey} {rids : List ReplicaId} {flag flag' : Bool}
  {w w' : W}

theorem RemovesOnly.clears (hremoves : RemovesOnly present store) {id : StorageBackendId}
    {b : IBackend W} (hbackend : store.backends.find id = some b)
    (htakes : Takes present id b key) : Clears present id b key := by
  intro w removed w' hremove hpresent'
  have hfinal : finalState (b.remove key w) = w' := by rw [hremove]; rfl
  obtain ⟨w'', hremove', hgone⟩ :=
    htakes w (hremoves.before id b hbackend key w id key (hfinal.symm ▸ hpresent'))
  rw [hremove] at hremove'
  cases hremove'
  exact hgone hpresent'

/-- No object appears. -/
theorem RemoveCalls.before (hremoves : RemovesOnly present store)
    (h : RemoveCalls store key rids flag w flag' w') {id : StorageBackendId} {key' : BackendKey}
    (hpresent : present id key' w') : present id key' w := by
  induction h with
  | done => exact hpresent
  | skip _ _ ih => exact ih hpresent
  | @call rid rest rd b flag removed flag' w w₁ w' _ hbackend hremove _ ih =>
      refine hremoves.before _ b hbackend key w id key' ?_
      rw [hremove]
      exact ih hpresent

/-- Objects under other keys stay, and so do those of backends that are not registered. -/
theorem RemoveCalls.others (hremoves : RemovesOnly present store)
    (h : RemoveCalls store key rids flag w flag' w') {id : StorageBackendId} {key' : BackendKey}
    (hother : key' ≠ key ∨ store.backends.find id = none) (hpresent : present id key' w) :
    present id key' w' := by
  induction h with
  | done => exact hpresent
  | skip _ _ ih => exact ih hpresent
  | @call rid rest rd b flag removed flag' w w₁ w' _ hbackend hremove _ ih =>
      have hstep := hremoves.others _ b hbackend key w id key' (fun hsame => ?_) hpresent
      · rw [hremove] at hstep
        exact ih hstep
      · rcases hother with hkey | hnone
        · exact hkey hsame.2
        · rw [hsame.1, hbackend] at hnone
          cases hnone

/-- A replica that was asked, and whose backend clears the object, has none left. -/
theorem RemoveCalls.cleared (hremoves : RemovesOnly present store)
    (h : RemoveCalls store key rids flag w flag' w') {rid : ReplicaId} (hin : rid ∈ rids)
    {rd : ReplicaDescriptor} (hreplica : store.replicas.find rid = some rd) {b : IBackend W}
    (hbackend : store.backends.find rd.backendId = some b)
    (hclears : Clears present rd.backendId b key) : ¬ present rd.backendId key w' := by
  induction h with
  | done => simp at hin
  -- No replica that is known and registered is skipped.
  | @skip rid' rest flag flag' w w' hunknown _ ih =>
      rcases List.mem_cons.mp hin with rfl | hrest
      · exact absurd ⟨rd, hreplica, by simp [hbackend]⟩ hunknown
      · exact ih hrest
  | @call rid' rest rd' b' flag removed flag' w w₁ w' hreplica' hbackend' hremove hrest ih =>
      rcases List.mem_cons.mp hin with rfl | hin
      · rw [hreplica] at hreplica'
        cases hreplica'
        rw [hbackend] at hbackend'
        cases hbackend'
        exact fun hpresent => hclears w removed w₁ hremove (hrest.before hremoves hpresent)
      · exact ih hin

/-- If the backend removes its object when asked, then the object stays or a call has said that it
was removed. -/
theorem RemoveCalls.taken (hremoves : RemovesOnly present store)
    (h : RemoveCalls store key rids flag w flag' w') {id : StorageBackendId} {b : IBackend W}
    (hbackend : store.backends.find id = some b) (htakes : Takes present id b key)
    (hpresent : present id key w) : present id key w' ∨ flag' = true := by
  induction h with
  | done => exact Or.inl hpresent
  | skip _ _ ih => exact ih hpresent
  | @call rid rest rd b' flag removed flag' w w₁ w' _ hbackend' hremove hrest ih =>
      by_cases hid : id = rd.backendId
      · subst hid
        rw [hbackend] at hbackend'
        cases hbackend'
        obtain ⟨w₂, hremove', _⟩ := htakes w hpresent
        rw [hremove] at hremove'
        cases hremove'
        exact Or.inr (hrest.answered (Bool.or_true _))
      · have hstep := hremoves.others _ b' hbackend' key w id key (fun h => hid h.1) hpresent
        rw [hremove] at hstep
        exact ih hstep

end Calls

/-! ## What is left is in the table -/

section Kept

variable {env : Env} {reachable : List BlobId} {bid : BlobId} {bd : BlobDescriptor}
  {s s' : System W}

theorem Reclaimed.removes_only (h : Reclaimed reachable bid s s')
    (hremoves : RemovesOnly present s.store) : RemovesOnly present s'.store := by
  cases h with
  | deferred => exact hremoves
  | forgot => exact ⟨hremoves.before, hremoves.others⟩

/-- The blob is in the table, or the backends of its replicas have no object of it. -/
def KeptOrCleared (present : StorageBackendId → BackendKey → W → Prop) (bid : BlobId)
    (bd : BlobDescriptor) (s : System W) : Prop :=
  s.store.blobs.find bid = some bd ∨ ∀ rid ∈ bd.replicas, ∀ rd,
    s.store.replicas.find rid = some rd → ¬ present rd.backendId (blobKey bd.digest) s.world

theorem Reclaimed.kept_or_cleared {bid' : BlobId} (hremoves : RemovesOnly present s.store)
    (hclear : ReplicasClear present s.store bd) (h : Reclaimed reachable bid' s s')
    (hs : KeptOrCleared present bid bd s) : KeptOrCleared present bid bd s' := by
  cases h with
  | deferred => exact hs
  | @forgot bd' removedAny w calls _ hfind' _ hcalls _ =>
      rcases hs with hfind | hgone
      · by_cases hbid : bid = bid'
        · subst hbid
          rw [hfind] at hfind'
          cases hfind'
          refine Or.inr fun rid hin rd hreplica => ?_
          obtain ⟨b, hbackend, hclears⟩ := hclear rid hin rd hreplica
          exact hcalls.cleared hremoves hin hreplica hbackend hclears
        · refine Or.inl ?_
          show (s.store.blobs.erase bid').find bid = some bd
          rw [find_erase, if_neg hbid, hfind]
      · exact Or.inr fun rid hin rd hreplica hpresent =>
          hgone rid hin rd hreplica (hcalls.before hremoves hpresent)

/-- The loop keeps a blob or clears its object. -/
theorem Reclaims.kept_or_cleared {bids : List BlobId} (hremoves : RemovesOnly present s.store)
    (hclear : ReplicasClear present s.store bd) (h : Reclaims reachable bids s s')
    (hs : KeptOrCleared present bid bd s) : KeptOrCleared present bid bd s' := by
  induction h with
  | nil s => exact hs
  | @cons bid' rest s s₁ s' hround _ ih =>
      have hclear₁ : ReplicasClear present s₁.store bd := by
        cases hround with
        | deferred => exact hclear
        | forgot => exact hclear
      exact ih (hround.removes_only hremoves) hclear₁ (hround.kept_or_cleared hremoves hclear hs)

theorem ReclaimThrew.kept_or_cleared {bid' : BlobId} (hremoves : RemovesOnly present s.store)
    (h : ReclaimThrew reachable bid' s s') (hs : KeptOrCleared present bid bd s) :
    KeptOrCleared present bid bd s' := by
  cases h with
  | @intro bd' asked removedAny w₁ w calls id b exn _ _ _ hcalls hbackend hthrow _ =>
      refine hs.imp (fun hfind => hfind) fun hgone rid hin rd hreplica hpresent => ?_
      refine hgone rid hin rd hreplica (hcalls.before hremoves ?_)
      refine hremoves.before id b hbackend (blobKey bd'.digest) w₁ _ _ ?_
      rw [hthrow]
      exact hpresent

theorem GcRan.kept_or_cleared (hremoves : RemovesOnly present s.store)
    (hclear : ReplicasClear present s.store bd) (h : GcRan env s s')
    (hs : KeptOrCleared present bid bd s) : KeptOrCleared present bid bd s' := by
  -- A sweep touches neither the blobs nor the backends.
  have hswept : ∀ eligible n,
      let t : System W := { s with ticks := n, store := sweep eligible s.store }
      RemovesOnly present t.store ∧ ReplicasClear present t.store bd ∧
        KeptOrCleared present bid bd t := by
    intro eligible n
    obtain ⟨_, _, _, hstore⟩ := sweep_store_eq eligible s.store
    dsimp only
    rw [hstore]
    exact ⟨⟨hremoves.before, hremoves.others⟩, hclear, hs⟩
  cases h with
  | @completed eligible retained s₁ s₂ s₃ heligible hretained hreclaims =>
      obtain ⟨n, rfl⟩ := protected_sets_clock_only heligible hretained
      obtain ⟨hremoves', hclear', hs'⟩ := hswept eligible n
      have hs₃ : KeptOrCleared present bid bd s₃ :=
        hreclaims.kept_or_cleared hremoves' hclear' hs'
      exact hs₃
  | @interrupted eligible retained s₁ s₂ s₃ s₄ done rest bid' heligible hretained _ hreclaims
      hthrew =>
      obtain ⟨n, rfl⟩ := protected_sets_clock_only heligible hretained
      obtain ⟨hremoves', hclear', hs'⟩ := hswept eligible n
      refine hthrew.kept_or_cleared ?_ (hreclaims.kept_or_cleared hremoves' hclear' hs')
      obtain ⟨_, _, _, hstore⟩ := hreclaims.store_eq
      rw [hstore]
      exact ⟨hremoves'.before, hremoves'.others⟩

/-- A blob that is not listed stays in the table. -/
theorem Reclaims.find_unlisted {bids : List BlobId} (h : Reclaims reachable bids s s')
    (hnot : bid ∉ bids) : s'.store.blobs.find bid = s.store.blobs.find bid := by
  induction h with
  | nil s => rfl
  | @cons bid' rest s s₁ s' hround _ ih =>
      rw [List.mem_cons, not_or] at hnot
      rw [ih hnot.2]
      cases hround with
      | deferred => rfl
      | forgot =>
          show (s.store.blobs.erase bid').find bid = _
          rw [find_erase, if_neg hnot.1]

/-- A blob that is not listed is kept. -/
theorem GcRan.find_unlisted (h : GcRan env s s') (hnot : bid ∉ s.store.gc.reclaimableBlobs) :
    s'.store.blobs.find bid = s.store.blobs.find bid := by
  have hswept : ∀ eligible, (sweep eligible s.store).blobs = s.store.blobs := by
    intro eligible
    obtain ⟨_, _, _, hstore⟩ := sweep_store_eq eligible s.store
    rw [hstore]
  cases h with
  | @completed eligible _ _ _ _ _ _ hreclaims =>
      exact (hreclaims.find_unlisted hnot).trans (by rw [hswept])
  | @interrupted eligible _ _ _ _ _ _ _ _ _ _ hplan hreclaims hthrew =>
      rw [hplan, List.mem_append, not_or] at hnot
      cases hthrew with
      | intro => exact (hreclaims.find_unlisted hnot.1).trans (by rw [hswept])

/-- A backend that is not registered keeps its objects. -/
theorem Reclaims.unregistered {bids : List BlobId} (h : Reclaims reachable bids s s')
    (hremoves : RemovesOnly present s.store) {id : StorageBackendId} {key : BackendKey}
    (hnone : s.store.backends.find id = none) (hpresent : present id key s.world) :
    present id key s'.world := by
  induction h with
  | nil s => exact hpresent
  | @cons bid' rest s s₁ s' hround _ ih =>
      have hstep : s₁.store.backends.find id = none ∧ present id key s₁.world := by
        cases hround with
        | deferred => exact ⟨hnone, hpresent⟩
        | forgot _ _ _ hcalls _ => exact ⟨hnone, hcalls.others hremoves (.inr hnone) hpresent⟩
      exact ih (hround.removes_only hremoves) hstep.1 hstep.2

end Kept

/-! ## A later collection takes it -/

section Collected

variable {env : Env} {reachable : List BlobId} {bid : BlobId} {bd : BlobDescriptor}
  {id : StorageBackendId} {d : Digest} {s s' : System W}

/-- Nothing refers to a digest, and its object is there or its entry is gone. -/
structure Pending (present : StorageBackendId → BackendKey → W → Prop) (id : StorageBackendId)
    (d : Digest) (s : System W) : Prop where
  unreferenced : s.store.dedup.refcount d = 0
  held : present id (blobKey d) s.world ∨ s.store.dedup.find d = none

/-- Blob, object and dedup entry are gone. -/
structure BlobTaken (present : StorageBackendId → BackendKey → W → Prop) (id : StorageBackendId)
    (d : Digest) (bid : BlobId) (s : System W) : Prop where
  blob : s.store.blobs.find bid = none
  object : ¬ present id (blobKey d) s.world
  entry : s.store.dedup.find d = none

/-- Forgetting a blob brings no dedup entry back. -/
theorem find_forget_blob (bid : BlobId) (bd : BlobDescriptor) (removedAny : Bool)
    (store : Store W) (d : Digest) :
    (forgetBlob bid bd removedAny store).dedup.find d =
      if removedAny = true ∧ d = bd.digest ∧ store.dedup.refcount bd.digest = 0 then none
      else store.dedup.find d := by
  cases removedAny with
  | false => simp [forgetBlob]
  | true =>
      show (store.dedup.releaseUntilOrphan bd.digest).2.find d = _
      rw [DedupTable.find_release_until_orphan]
      simp

theorem refcount_forget_blob (bid : BlobId) (bd : BlobDescriptor) (removedAny : Bool)
    (store : Store W) (d : Digest) :
    (forgetBlob bid bd removedAny store).dedup.refcount d = store.dedup.refcount d := by
  cases removedAny with
  | false => rfl
  | true => exact DedupTable.refcount_release_until_orphan _ _ _

variable (hremoves : RemovesOnly present s.store)

include hremoves

theorem Reclaimed.collected {bid' : BlobId} (h : Reclaimed reachable bid' s s')
    (hs : BlobTaken present id d bid s) : BlobTaken present id d bid s' := by
  cases h with
  | deferred => exact hs
  | @forgot bd' removedAny w calls _ _ _ hcalls _ =>
      refine ⟨?_, fun hpresent => hs.object (hcalls.before hremoves hpresent), ?_⟩
      · show (s.store.blobs.erase bid').find bid = none
        rw [find_erase, hs.blob, ite_self]
      · dsimp only
        rw [find_forget_blob, hs.entry, ite_self]

theorem Reclaims.collected {bids : List BlobId} (h : Reclaims reachable bids s s')
    (hs : BlobTaken present id d bid s) : BlobTaken present id d bid s' := by
  induction h with
  | nil s => exact hs
  | cons hround _ ih => exact ih (hround.removes_only hremoves) (hround.collected hremoves hs)

variable {b : IBackend W} (hbackend : s.store.backends.find id = some b)
  (htakes : Takes present id b (blobKey d))

include hbackend htakes

/-- A round of the loop leaves it pending. -/
theorem Reclaimed.pending {bid' : BlobId} (h : Reclaimed reachable bid' s s')
    (hs : Pending present id d s) : Pending present id d s' := by
  cases h with
  | deferred => exact hs
  | @forgot bd' removedAny w calls _ _ hcount hcalls _ =>
      refine ⟨(refcount_forget_blob bid' bd' removedAny s.store d).trans hs.unreferenced, ?_⟩
      dsimp only
      rw [find_forget_blob]
      rcases hs.held with hpresent | hnone
      · by_cases hd : d = bd'.digest
        · subst hd
          refine (hcalls.taken hremoves hbackend htakes hpresent).imp (fun h => h) fun hany => ?_
          rw [if_pos ⟨hany, rfl, hcount⟩]
        · exact Or.inl (hcalls.others hremoves (.inl fun h => hd (blob_key_injective h)) hpresent)
      · rw [hnone, ite_self]
        exact Or.inr rfl

/-- The round of the blob itself. -/
theorem Reclaimed.collects (h : Reclaimed reachable bid s s')
    (hs : Pending present id d s) (hreach : bid ∉ reachable)
    (hfind : s.store.blobs.find bid = some bd) (hdigest : bd.digest = d) {rid : ReplicaId}
    (hin : rid ∈ bd.replicas) {rd : ReplicaDescriptor}
    (hreplica : s.store.replicas.find rid = some rd) (hid : rd.backendId = id) :
    BlobTaken present id d bid s' := by
  subst hid hdigest
  cases h with
  | deferred hreason =>
      rcases hreason with hin' | hnone | ⟨bd', hfind', hcount⟩
      · exact absurd hin' hreach
      · rw [hfind] at hnone
        cases hnone
      · rw [hfind] at hfind'
        cases hfind'
        exact absurd hs.unreferenced hcount
  | @forgot bd' removedAny w calls _ hfind' hcount hcalls _ =>
      rw [hfind] at hfind'
      cases hfind'
      have hgone := hcalls.cleared hremoves hin hreplica hbackend
        (hremoves.clears hbackend htakes)
      refine ⟨?_, hgone, ?_⟩
      · show (s.store.blobs.erase bid).find bid = none
        rw [find_erase, if_pos rfl]
      · dsimp only
        rw [find_forget_blob]
        rcases hs.held with hpresent | hnone
        · have hany := (hcalls.taken hremoves hbackend htakes hpresent).resolve_left hgone
          rw [if_pos ⟨hany, rfl, hcount⟩]
        · rw [hnone, ite_self]

/-- The loop comes to the blob, in whatever place of the list it is. -/
theorem Reclaims.collects {bids : List BlobId} (h : Reclaims reachable bids s s')
    (hs : Pending present id d s) (hlisted : bid ∈ bids) (hreach : bid ∉ reachable)
    (hfind : s.store.blobs.find bid = some bd) (hdigest : bd.digest = d) {rid : ReplicaId}
    (hin : rid ∈ bd.replicas) {rd : ReplicaDescriptor}
    (hreplica : s.store.replicas.find rid = some rd) (hid : rd.backendId = id) :
    BlobTaken present id d bid s' := by
  induction h with
  | nil s => simp at hlisted
  | @cons bid' rest s s₁ s' hround hrest ih =>
      have hremoves' := hround.removes_only hremoves
      have hsame : s₁.store.backends.find id = some b ∧ s₁.store.replicas.find rid = some rd := by
        cases hround with
        | deferred => exact ⟨hbackend, hreplica⟩
        | forgot => exact ⟨hbackend, hreplica⟩
      obtain ⟨hbackend', hreplica'⟩ := hsame
      by_cases hbid : bid = bid'
      · subst hbid
        exact hrest.collected hremoves' (hround.collects hremoves hbackend htakes hs hreach hfind
          hdigest hin hreplica hid)
      -- An earlier round for the same digest leaves the object, or releases the entry with it.
      · refine ih hremoves' hbackend' (hround.pending hremoves hbackend htakes hs)
          ((List.mem_cons.mp hlisted).resolve_left hbid) ?_ hreplica'
        cases hround with
        | deferred => exact hfind
        | forgot =>
            show (s.store.blobs.erase bid').find bid = some bd
            rw [find_erase, if_neg hbid, hfind]

end Collected

/-! ## Two collections -/

/-- The protected set from which `gc_plan` and `gc_run` determine what is reachable. -/
def retainedSet (env : Env) : Proc (System W) (List CheckpointId) := do
  let _ ← gcEligibleCheckpoints env
  computeProtectedSet env

/-- A plan or a collection that starts in this state does not reach the blob. -/
def Unreached (env : Env) (s : System W) (bid : BlobId) : Prop :=
  ∀ retained ∈ returned (retainedSet env s),
    bid ∉ computeReachable s.store.checkpoints.values retained

instance (env : Env) (s : System W) (bid : BlobId) : Decidable (Unreached env s bid) :=
  inferInstanceAs (Decidable (∀ retained ∈ returned (retainedSet env s), _))

/-- A blob in the table that nothing refers to, with an object on a registered backend from which
it can be removed. -/
structure Collectable (present : StorageBackendId → BackendKey → W → Prop) (bid : BlobId)
    (bd : BlobDescriptor) (id : StorageBackendId) (s : System W) : Prop where
  removes : RemovesOnly present s.store
  listed : s.store.blobs.find bid = some bd
  unreferenced : s.store.dedup.refcount bd.digest = 0
  replica : ∃ rid ∈ bd.replicas, ∃ rd, s.store.replicas.find rid = some rd ∧ rd.backendId = id
  takes : ∃ b, s.store.backends.find id = some b ∧ Takes present id b (blobKey bd.digest)
  object : present id (blobKey bd.digest) s.world

section Collections

variable {env : Env} {s s' : System W} {bid : BlobId} {bd : BlobDescriptor}
  {id : StorageBackendId}

theorem Unreached.not_mem (h : Unreached env s bid) {eligible retained : List CheckpointId}
    {s₁ s₂ : System W} (heligible : gcEligibleCheckpoints env s = .ok eligible s₁)
    (hretained : computeProtectedSet env s₁ = .ok retained s₂) :
    bid ∉ computeReachable s.store.checkpoints.values retained := by
  refine h retained ?_
  have hrun : retainedSet env s = .ok retained s₂ := by
    simp only [retainedSet, bind, EStateM.bind, heligible, hretained]
  rw [hrun]
  rfl

/-- A plan lists the blobs that it does not reach, and changes nothing else of what a collection
works on. -/
theorem post_gc_plan_listed (hunreached : Unreached env s bid)
    (hfind : s.store.blobs.find bid = some bd) :
    Post (gcPlan env) s
      (fun _ s' => bid ∈ s'.store.gc.reclaimableBlobs ∧ ∃ n k c gc, s' = { s with
        ticks := n, idsDrawn := k, store := { s.store with nextIdCounter := c, gc := gc } })
      (fun _ _ => False) := by
  simp only [gcPlan, post_bind, post_get, post_next_id, post_modify_store, post_pure]
  refine (returns_gc_eligible_checkpoints env).post fun _ s₁ heligible hs₁ => ?_
  refine (returns_compute_protected_set env).post fun retained s₂ hretained hs₂ => ?_
  have hreach := hunreached.not_mem heligible hretained
  obtain ⟨n, rfl⟩ := trans_of ClockOnly hs₁ hs₂
  refine ⟨?_, n, _, _, _, rfl⟩
  simp only [plannedGc, List.mem_filter, decide_eq_true_eq]
  exact ⟨List.mem_map.mpr ⟨(bid, bd), find_eq_some_iff.mp hfind, rfl⟩, hreach⟩

/-- A sweep can only release references. -/
theorem sweep_unreferenced (eligible : List CheckpointId) {store : Store W} {d : Digest}
    (h : store.dedup.refcount d = 0) : (sweep eligible store).dedup.refcount d = 0 := by
  obtain ⟨k, _, hcount⟩ := sweep_references eligible store d
  rw [h] at hcount
  exact UInt64.toNat_inj.mp (by simpa using hcount)

/-- A collection that returns takes what is listed and collectable. -/
theorem GcReturned.collects (h : GcReturned env s s') (hs : Collectable present bid bd id s)
    (hunreached : Unreached env s bid) (hlisted : bid ∈ s.store.gc.reclaimableBlobs) :
    BlobTaken present id bd.digest bid s' := by
  obtain ⟨eligible, retained, s₁, s₂, s₃, heligible, hretained, hreclaims, rfl⟩ := h
  have hreach := hunreached.not_mem heligible hretained
  obtain ⟨n, rfl⟩ := protected_sets_clock_only heligible hretained
  obtain ⟨rid, hin, rd, hreplica, hid⟩ := hs.replica
  obtain ⟨b, hbackend, htakes⟩ := hs.takes
  have hcount := sweep_unreferenced eligible hs.unreferenced
  have hswept : RemovesOnly present (sweep eligible s.store) ∧
      (sweep eligible s.store).backends.find id = some b ∧
      (sweep eligible s.store).blobs.find bid = some bd ∧
      (sweep eligible s.store).replicas.find rid = some rd := by
    obtain ⟨_, _, _, hstore⟩ := sweep_store_eq eligible s.store
    rw [hstore]
    exact ⟨⟨hs.removes.before, hs.removes.others⟩, hbackend, hs.listed, hreplica⟩
  obtain ⟨hremoves', hbackend', hfind', hreplica'⟩ := hswept
  have hs₃ : BlobTaken present id bd.digest bid s₃ := hreclaims.collects hremoves' hbackend' htakes
    ⟨hcount, Or.inl hs.object⟩ hlisted hreach hfind' rfl hin hreplica' hid
  exact ⟨hs₃.blob, hs₃.object, hs₃.entry⟩

/-- A collection that returns forgets a listed blob that it does not reach and nothing refers to,
and leaves the objects on backends that are not registered. -/
theorem GcReturned.forgets (h : GcReturned env s s') (hremoves : RemovesOnly present s.store)
    (hfind : s.store.blobs.find bid = some bd) (hunreached : Unreached env s bid)
    (hcount : s.store.dedup.refcount bd.digest = 0)
    (hlisted : bid ∈ s.store.gc.reclaimableBlobs) :
    s'.store.blobs.find bid = none ∧ ∀ id key, s.store.backends.find id = none →
      present id key s.world → present id key s'.world := by
  obtain ⟨eligible, retained, s₁, s₂, s₃, heligible, hretained, hreclaims, rfl⟩ := h
  have hreach := hunreached.not_mem heligible hretained
  obtain ⟨n, rfl⟩ := protected_sets_clock_only heligible hretained
  obtain ⟨_, _, _, hstore⟩ := sweep_store_eq eligible s.store
  refine ⟨?_, fun id key hnone hpresent => ?_⟩
  · cases hkept : s₃.store.blobs.find bid with
    | none => exact hkept
    | some bd' =>
        refine absurd ?_ (hreclaims.counted_of_kept hlisted hreach hkept)
        have hbefore : (sweep eligible s.store).blobs.find bid = some bd' :=
          hreclaims.find_blob hkept
        rw [hstore] at hbefore
        obtain rfl : bd = bd' := Option.some.inj (hfind.symm.trans hbefore)
        rw [(hreclaims.references bd.digest).1]
        exact sweep_unreferenced eligible hcount
  · have hswept : RemovesOnly present (sweep eligible s.store) ∧
        (sweep eligible s.store).backends.find id = none := by
      rw [hstore]
      exact ⟨⟨hremoves.before, hremoves.others⟩, hnone⟩
    exact hreclaims.unregistered hswept.1 hswept.2 hpresent

/-- When an object that a collection leaves belongs to a blob that is still in the table. It does,
whether `gc_run` returns or throws, if the blob is not listed, or if every known replica of it is on
a registered backend whose `remove`, when it returns, leaves no object of the blob. If `gc_run`
returns, and does not reach the blob and nothing refers to it, then it does so only if the blob is
not listed or no object is left; on a backend that is not registered every object is left. In any
state in which a blob is in the table and collectable, a plan and a collection that do not reach it
take blob, object and dedup entry, if the collection returns. -/
theorem unremoved_blob_collectable (hremoves : RemovesOnly present s.store)
    (hfind : s.store.blobs.find bid = some bd) :
    (bid ∉ s.store.gc.reclaimableBlobs ∨ ReplicasClear present s.store bd →
      ∀ rid ∈ bd.replicas, ∀ rd, s.store.replicas.find rid = some rd →
        present rd.backendId (blobKey bd.digest) (finalState (gcRun env s)).world →
        (finalState (gcRun env s)).store.blobs.find bid = some bd) ∧
    (∀ result s', gcRun env s = .ok result s' → Unreached env s bid →
      s.store.dedup.refcount bd.digest = 0 →
      ((∀ rid ∈ bd.replicas, ∀ rd, s.store.replicas.find rid = some rd →
          present rd.backendId (blobKey bd.digest) s'.world →
          s'.store.blobs.find bid = some bd) ↔
        bid ∉ s.store.gc.reclaimableBlobs ∨
          ∀ rid ∈ bd.replicas, ∀ rd, s.store.replicas.find rid = some rd →
            ¬ present rd.backendId (blobKey bd.digest) s'.world) ∧
      (bid ∈ s.store.gc.reclaimableBlobs → ∀ id key, s.store.backends.find id = none →
        present id key s.world → present id key s'.world)) ∧
    ∀ (t t₁ t₂ : System W) plan result bd id, Collectable present bid bd id t →
      Unreached env t bid → gcPlan env t = .ok plan t₁ →
      Unreached env t₁ bid → gcRun env t₁ = .ok result t₂ →
      BlobTaken present id bd.digest bid t₂ := by
  have hran : GcRan env s (finalState (gcRun env s)) :=
    post_final (P := fun _ s' => GcRan env s s') (post_gc_run env s)
  refine ⟨?_, ?_, ?_⟩
  · rintro (hnot | hclear) rid hin rd hreplica hpresent
    · rw [hran.find_unlisted hnot, hfind]
    have hreplicas : (finalState (gcRun env s)).store.replicas = s.store.replicas := by
      obtain ⟨_, _, _, _, _, hstore⟩ := hran.store_eq
      rw [hstore]
    refine (hran.kept_or_cleared hremoves hclear (Or.inl hfind)).resolve_right fun hgone => ?_
    exact hgone rid hin rd (by rw [hreplicas]; exact hreplica) hpresent
  · intro result s' hrun hunreached hcount
    have hreturned : GcReturned env s s' := (post_gc_run_outcomes env s).of_ok hrun
    have hforgets := hreturned.forgets hremoves hfind hunreached hcount
    refine ⟨⟨fun hkept => ?_, fun hor rid hin rd hreplica hpresent => ?_⟩,
      fun hlisted => (hforgets hlisted).2⟩
    · by_cases hlisted : bid ∈ s.store.gc.reclaimableBlobs
      · refine .inr fun rid hin rd hreplica hpresent => ?_
        have hsome := hkept rid hin rd hreplica hpresent
        rw [(hforgets hlisted).1] at hsome
        cases hsome
      · exact .inl hlisted
    · rcases hor with hnot | hgone
      · rw [hreturned.ran.find_unlisted hnot, hfind]
      · exact absurd hpresent (hgone rid hin rd hreplica)
  · intro t t₁ t₂ plan result bd id ht hunreached hplan hunreached₁ hrun
    obtain ⟨hlisted, n, k, c, gc, rfl⟩ :=
      (post_gc_plan_listed hunreached ht.listed).of_ok hplan
    have hreturned : GcReturned env _ t₂ := (post_gc_run_outcomes env _).of_ok hrun
    exact hreturned.collects ⟨⟨ht.removes.before, ht.removes.others⟩, ht.listed, ht.unreferenced,
      ht.replica, ht.takes, ht.object⟩ hunreached₁ hlisted

end Collections

/-! ## Concrete collections -/

/-- Where the one backend of the sample store is registered, and what it holds. -/
def memoryPresent (id : StorageBackendId) (key : BackendKey) (w : MemoryWorld) : Prop :=
  id = ⟨1⟩ ∧ w.objects.find key ≠ none

theorem memory_removes_only {H : StreamHash} {store : Store MemoryWorld}
    (hbackends : store.backends = (sampleSystem H []).store.backends) :
    RemovesOnly memoryPresent store := by
  have herase : ∀ key (w : MemoryWorld), (finalState ((memoryBackend H).remove key w)).objects =
      w.objects.erase key := fun _ _ => rfl
  have hone : ∀ id b, store.backends.find id = some b → id = ⟨1⟩ ∧ b = memoryBackend H := by
    intro id b hfind
    have hfind' : (assign ⟨1⟩ (memoryBackend H) ∅ : UnorderedMap StorageBackendId _).find id =
        some b := by rw [hbackends] at hfind; exact hfind
    rw [find_assign] at hfind'
    split at hfind'
    · next hid => exact ⟨hid, (Option.some.inj hfind').symm⟩
    · simp at hfind'
  refine ⟨fun id b hfind key w id' key' h => ?_, fun id b hfind key w id' key' hne h => ?_⟩
  · obtain ⟨-, rfl⟩ := hone id b hfind
    refine ⟨h.1, fun hnone => h.2 ?_⟩
    rw [herase, find_erase, hnone, ite_self]
  · obtain ⟨rfl, rfl⟩ := hone id b hfind
    refine ⟨h.1, ?_⟩
    rw [herase, find_erase, if_neg fun hkey => hne ⟨h.1, hkey⟩]
    exact h.2

theorem memory_takes (H : StreamHash) (key : BackendKey) :
    Takes memoryPresent ⟨1⟩ (memoryBackend H) key := by
  intro w h
  obtain ⟨data, hdata⟩ := Option.ne_none_iff_exists'.mp h.2
  refine ⟨{ w with objects := w.objects.erase key }, ?_, fun h' => h'.2 ?_⟩
  · have hcontains : w.objects.contains key = true := contains_iff.mpr ⟨data, hdata⟩
    show EStateM.Result.ok (w.objects.contains key) _ = _
    rw [hcontains]
  · show (w.objects.erase key).find key = none
    rw [find_erase, if_pos rfl]

/-- The one blob that nothing refers to, with its object. -/
def garbageBlob : BlobDescriptor where
  id := ⟨3⟩
  digest := tagHash.sha256 [0]
  replicas := [⟨4⟩]

/-- A blob that no checkpoint has, with its object. -/
def garbageSystem : System MemoryWorld :=
  let start := sampleSystem tagHash []
  { start with
    store := { start.store with
      blobs := assign ⟨3⟩ garbageBlob ∅
      replicas := assign ⟨4⟩ { id := ⟨4⟩, backendId := ⟨1⟩ } ∅ }
    world := { objects := assign (blobKey garbageBlob.digest) [0] ∅ } }

/-- Without a plan the first collection leaves the blob, and the next plan and collection take
it. -/
theorem unremoved_blob_collectable_garbage :
    let env := sampleEnv tagHash
    (finalState (gcRun env garbageSystem)).store.blobs.find ⟨3⟩ = some garbageBlob ∧
      ∃ plan t₁ result t₂, gcPlan env garbageSystem = .ok plan t₁ ∧
        gcRun env t₁ = .ok result t₂ ∧
        BlobTaken memoryPresent ⟨1⟩ garbageBlob.digest ⟨3⟩ t₂ := by
  intro env
  have hremoves : RemovesOnly memoryPresent garbageSystem.store := memory_removes_only rfl
  have htakes := memory_takes tagHash (blobKey garbageBlob.digest)
  have hclear : ReplicasClear memoryPresent garbageSystem.store garbageBlob := by
    intro rid hin rd hreplica
    obtain rfl : rid = ⟨4⟩ := by simpa [garbageBlob] using hin
    cases hreplica
    exact ⟨memoryBackend tagHash, rfl, hremoves.clears rfl htakes⟩
  obtain ⟨hkept, -, hlater⟩ := @unremoved_blob_collectable _ _ env garbageSystem ⟨3⟩ garbageBlob
    hremoves rfl
  have hfacts : (finalState (gcRun env garbageSystem)).world.objects.contains
        (blobKey garbageBlob.digest) = true ∧
      Unreached env garbageSystem ⟨3⟩ ∧ Unreached env (finalState (gcPlan env garbageSystem)) ⟨3⟩ ∧
      thrown (gcRun env (finalState (gcPlan env garbageSystem))) = none := by decide +kernel
  obtain ⟨hobject, hunreached, hunreached₁, hreturns⟩ := hfacts
  obtain ⟨data, hdata⟩ := contains_iff.mp hobject
  refine ⟨hkept (.inr hclear) ⟨4⟩ (by simp [garbageBlob]) _ rfl ⟨rfl, by simp [hdata]⟩, ?_⟩
  obtain ⟨plan, t₁, hplan, -⟩ := (post_gc_plan env garbageSystem).returns
  rw [hplan, final_state_ok] at hunreached₁ hreturns
  cases hrun : gcRun env t₁ with
  | error exn t₂ =>
      rw [hrun] at hreturns
      cases hreturns
  | ok result t₂ =>
      refine ⟨plan, t₁, result, t₂, hplan, hrun, ?_⟩
      exact hlater garbageSystem t₁ t₂ plan result garbageBlob ⟨1⟩
        ⟨hremoves, rfl, rfl, ⟨⟨4⟩, by simp [garbageBlob], _, rfl, rfl⟩,
          ⟨memoryBackend tagHash, rfl, htakes⟩, rfl, by decide +kernel⟩
        hunreached hplan hunreached₁ hrun

/-- A backend whose `remove` answers `false` and leaves the object when the script says so, as
`LocalBackend::remove` does when the file system reports an error. -/
def refusingBackend (H : StreamHash) : IBackend MemoryWorld :=
  { memoryBackend H with
    remove := fun key => do
      let w ← get
      match w.faults with
      | true :: rest => do
          set { w with faults := rest }
          pure false
      | _ => (memoryBackend H).remove key }

/-- A store over this backend, which refuses the first removal after one chunk was published. -/
def refusingSystem (H : StreamHash) : System MemoryWorld :=
  .fresh { chunkSize := 1 } (assign ⟨1⟩ (refusingBackend H) ∅)
    { faults := [false, false, false, true] }

/-- A blob is unreachable and without references, and its only replica is on a registered backend.
When the removal of its object is refused, the object stays but the blob leaves the table, and no
later collection takes object or dedup entry, although removing works again. -/
theorem refused_removal_forgets_blob :
    let env := sampleEnv sha256Hash
    let d := sha256Hash.sha256 [0]
    let s := callAll env (refusingSystem sha256Hash)
      [.createFamily, .publish (sampleDescriptor 7 1 1) [0], .retire ⟨7⟩, .gcRun, .gcPlan]
    let s' := finalState (gcRun env s)
    let t := callAll env s' [.gcPlan, .gcRun]
    ∃ events, Run (Step env Anything) (refusingSystem sha256Hash) events s ∧
      (s.store.blobs.find (blobIdFromDigest d)).map BlobDescriptor.digest = some d ∧
      Unreached env s (blobIdFromDigest d) ∧ s.store.dedup.refcount d = 0 ∧
      s'.world.objects.contains (blobKey d) = true ∧
      s'.store.blobs.contains (blobIdFromDigest d) = false ∧
      t.world.faults = [] ∧ t.world.objects.contains (blobKey d) = true ∧
      (t.store.dedup.find d).map DedupEntry.refcount = some 0 :=
  ⟨_, run_calls (sampleEnv sha256Hash) Anything (refusingSystem sha256Hash) _, by decide +kernel⟩

end CheckpointStore
