import CheckpointStore.Store.State
import Mathlib.Data.List.Sort
import Mathlib.Data.List.Dedup

/-!
# Retention

After `retention.cpp`. The protected set is computed by a loop that repeats two passes over
the checkpoints until nothing changes; every round but the last adds an existing checkpoint, so
one round more than there are checkpoints is enough. A set is a list without repetition.

None of these functions changes more than the clock position (`returns_compute_protected_set`),
but they read the clock once for every checkpoint with a retention time, so two computations in
one operation may give different sets.
-/

namespace CheckpointStore

open Foundation Foundation.Procedure

variable {W : Type}

/-- `latest_n` of the policy, or 1 without one. -/
def latestN : Option RetentionPolicy → UInt64
  | some policy => if 0 < policy.latestN then policy.latestN else 1
  | none => 1

/-- KEEP_LATEST_N: the checkpoint is among the last `latestN` of its family. Without family
data it is kept. -/
def keptAsLatest (rec : CheckpointRecord) (policy : Option RetentionPolicy)
    (familyByGen : UnorderedMap UInt64 (List CheckpointId)) : Bool :=
  match familyByGen.find rec.descriptor.familyId.value with
  | none => true
  | some ids =>
      let size := UInt64.ofNat ids.length
      let slot := UInt64.ofNat (ids.idxOf rec.descriptor.id)
      size ≤ latestN policy || size ≤ slot + latestN policy

/-- TTL: an unexpired checkpoint, or one without a configured retention time, is kept. -/
def keptByTtl (env : Env) (rec : CheckpointRecord) (policy : Option RetentionPolicy) :
    Proc (System W) Bool :=
  match policy with
  | none => pure true
  | some policy =>
      if 0 < policy.ttl then do
        let present ← now env
        pure (present < rec.descriptor.createdAt +
          policy.ttl * (1000 * env.period.perMillisecond))
      else pure true

/-- `is_protected`. -/
def isProtected (env : Env) (rec : CheckpointRecord) (policy : Option RetentionPolicy)
    (familyByGen : UnorderedMap UInt64 (List CheckpointId)) (hasActiveRestore : Bool) :
    Proc (System W) Bool :=
  if rec.replicaSet.durabilityState = .underReplicated then pure true
  else if hasActiveRestore then pure true
  else if rec.descriptor.retention = .pinned ∨ rec.descriptor.retention = .restorePoint then
    pure true
  else if policy.any (fun p => p.policyProtected) then pure true
  else if rec.lifecycle = .retired ∨ rec.lifecycle = .gcEligible ∨ rec.lifecycle = .deleted then
    -- Retiring overrides what follows, but none of the protections above.
    pure false
  else if rec.descriptor.retention = .keepLatestN then pure (keptAsLatest rec policy familyByGen)
  else if rec.descriptor.retention = .ttl then keptByTtl env rec policy
  else pure false

/-- The comparison that sorts the checkpoints of a family: by generation, or by identity when
one of them is unknown. -/
def generationLess (store : Store W) (a b : CheckpointId) : Bool :=
  match store.checkpoints.find a, store.checkpoints.find b with
  | some ra, some rb => ra.descriptor.generation.value < rb.descriptor.generation.value
  | _, _ => a.value < b.value

/-- `build_family_generations`. -/
def buildFamilyGenerations (store : Store W) : UnorderedMap UInt64 (List CheckpointId) :=
  store.families.values.foldl (fun out fam => out.assign fam.id.value
    (fam.checkpointIds.insertionSort fun a b => generationLess store b a = false)) ∅

/-- `find_policy`: the first policy of the family in iteration order. -/
def findPolicy (store : Store W) (family : CheckpointFamilyId) : Option RetentionPolicy :=
  store.retention.values.find? fun p => p.familyId = family

/-- The first pass of a round: enter what is protected by itself. -/
def markPass (env : Env) (store : Store W)
    (familyByGen : UnorderedMap UInt64 (List CheckpointId)) :
    List (CheckpointId × CheckpointRecord) → List CheckpointId → Bool →
      Proc (System W) (List CheckpointId × Bool)
  | [], marked, changed => pure (marked, changed)
  | (cid, rec) :: rest, marked, changed =>
      if cid ∈ marked then markPass env store familyByGen rest marked changed
      else do
        let kept ← isProtected env rec (findPolicy store rec.descriptor.familyId) familyByGen false
        if kept then markPass env store familyByGen rest (cid :: marked) true
        else markPass env store familyByGen rest marked changed

/-- Enter the existing ancestors in a lineage. -/
def markAncestors (store : Store W) (lineage : List CheckpointId)
    (state : List CheckpointId × Bool) : List CheckpointId × Bool :=
  lineage.foldl (fun state anc =>
    if store.checkpoints.contains anc ∧ anc ∉ state.1 then (anc :: state.1, true)
    else state) state

/-- The second pass of a round: enter the ancestors of what has been entered. -/
def ancestryPass (store : Store W) (state : List CheckpointId × Bool) :
    List CheckpointId × Bool :=
  store.checkpoints.entries.foldl (fun state entry =>
    if entry.1 ∈ state.1 then markAncestors store entry.2.manifest.lineage state
    else state) state

/-- The `while (changed)` loop. -/
def protectLoop (env : Env) (store : Store W)
    (familyByGen : UnorderedMap UInt64 (List CheckpointId)) :
    Nat → List CheckpointId → Proc (System W) (List CheckpointId)
  | 0, marked => pure marked
  | bound + 1, marked => do
      let first ← markPass env store familyByGen store.checkpoints.entries marked false
      let state := ancestryPass store first
      if state.2 then protectLoop env store familyByGen bound state.1 else pure state.1

/-- `detail::compute_protected_set`. -/
def computeProtectedSet (env : Env) : Proc (System W) (List CheckpointId) := do
  let s ← get
  protectLoop env s.store (buildFamilyGenerations s.store) (s.store.checkpoints.size + 1) []

/-- The committed or retired checkpoints outside a protected set. -/
def eligibleOutside (store : Store W) (marked : List CheckpointId) : List CheckpointId :=
  (store.checkpoints.entries.filter fun entry =>
    (entry.2.lifecycle = .committed ∨ entry.2.lifecycle = .retired) ∧
      entry.1 ∉ marked).map Prod.fst

/-- `gc_eligible_checkpoints_unlocked`. -/
def gcEligibleCheckpoints (env : Env) : Proc (System W) (List CheckpointId) := do
  let marked ← computeProtectedSet env
  let s ← get
  pure (eligibleOutside s.store marked)

/-- `CheckpointStore::set_retention_policy`. -/
def setRetentionPolicy (policy : RetentionPolicy) : Proc (System W) RetentionPolicy := do
  let policy := { policy with generation := ⟨1⟩ }
  modifyStore fun store => { store with retention := store.retention.assign policy.id policy }
  pure policy

/-- Mark a checkpoint as retired. -/
def retireRecord (id : CheckpointId) (store : Store W) : Store W :=
  { store with
    checkpoints := store.checkpoints.modify id fun rec => { rec with lifecycle := .retired } }

/-- `CheckpointStore::retire`. -/
def retire (env : Env) (id : CheckpointId) : Proc (System W) Unit := do
  let s ← get
  match s.store.checkpoints.find id with
  | none => throwStoreError .notFound "checkpoint not found"
  | some rec =>
      if rec.lifecycle ≠ .committed then
        throwStoreError .transaction "only a committed checkpoint can be retired"
      else do
        modifyStore (retireRecord id)
        let eligible ← gcEligibleCheckpoints env
        modifyCounters fun c => { c with
          gcEligibleCheckpoints := UInt64.ofNat eligible.length }

/-! ## What these functions change -/

/-- Only the clock position differs. -/
def ClockOnly (s s' : System W) : Prop := ∃ n, s' = { s with ticks := n }

instance : Std.Refl (ClockOnly (W := W)) := ⟨fun s => ⟨s.ticks, rfl⟩⟩

instance : IsTrans (System W) ClockOnly :=
  ⟨fun _ _ _ ⟨_, h⟩ ⟨n, h'⟩ => ⟨n, by rw [h', h]⟩⟩

/-- Reading the clock only advances it. -/
theorem returns_now (env : Env) : Returns ClockOnly (now env : Proc (System W) TimePoint) :=
  returns_modify_get fun s => ⟨s.ticks + 1, rfl⟩

/-- The check only reads the clock. -/
theorem returns_is_protected (env : Env) (rec : CheckpointRecord) (policy : Option RetentionPolicy)
    (familyByGen : UnorderedMap UInt64 (List CheckpointId)) (hasActiveRestore : Bool) :
    Returns ClockOnly
      (isProtected env rec policy familyByGen hasActiveRestore : Proc (System W) Bool) := by
  have hpure : ∀ b : Bool, Returns ClockOnly (pure b : Proc (System W) Bool) := returns_pure
  unfold isProtected
  refine returns_ite (hpure _) (returns_ite (hpure _) (returns_ite (hpure _) (returns_ite (hpure _)
    (returns_ite (hpure _) (returns_ite (hpure _) (returns_ite ?_ (hpure _)))))))
  unfold keptByTtl
  cases policy with
  | none => exact hpure _
  | some policy => exact returns_ite (returns_bind (returns_now env) fun _ => hpure _) (hpure _)

/-- So does a pass. -/
theorem returns_mark_pass (env : Env) (store : Store W)
    (familyByGen : UnorderedMap UInt64 (List CheckpointId))
    (entries : List (CheckpointId × CheckpointRecord)) (marked : List CheckpointId)
    (changed : Bool) :
    Returns ClockOnly (markPass env store familyByGen entries marked changed) := by
  induction entries generalizing marked changed with
  | nil => exact returns_pure _
  | cons entry rest ih =>
      obtain ⟨cid, rec⟩ := entry
      exact returns_ite (ih _ _) (returns_bind (returns_is_protected env rec _ _ _)
        fun _ => returns_ite (ih _ _) (ih _ _))

/-- So does the loop. -/
theorem returns_protect_loop (env : Env) (store : Store W)
    (familyByGen : UnorderedMap UInt64 (List CheckpointId)) (bound : Nat)
    (marked : List CheckpointId) :
    Returns ClockOnly (protectLoop env store familyByGen bound marked) := by
  induction bound generalizing marked with
  | zero => exact returns_pure _
  | succ bound ih =>
      exact returns_bind (returns_mark_pass env store familyByGen _ _ _)
        fun first => returns_ite (ih _) (returns_pure _)

/-- So does computing the protected set. -/
theorem returns_compute_protected_set (env : Env) :
    Returns ClockOnly (computeProtectedSet env : Proc (System W) (List CheckpointId)) :=
  returns_bind returns_get fun _ => returns_protect_loop env _ _ _ _

theorem returns_gc_eligible_checkpoints (env : Env) :
    Returns ClockOnly (gcEligibleCheckpoints env : Proc (System W) (List CheckpointId)) :=
  returns_bind (returns_compute_protected_set env) fun _ =>
    returns_bind returns_get fun _ => returns_pure _

/-- A committed checkpoint has been retired; besides, the clock was read and a counter set. -/
inductive Retired (id : CheckpointId) (s : System W) : System W → Prop where
  | intro {rec : CheckpointRecord} {ticks : Nat} {eligible : UInt64}
      (hfind : s.store.checkpoints.find id = some rec) (hcommitted : rec.lifecycle = .committed) :
      Retired id s { s with
        ticks := ticks
        store := { retireRecord id s.store with
          counters := { s.store.counters with gcEligibleCheckpoints := eligible } } }

/-- `retire` retires a committed checkpoint, or throws and changes nothing. -/
theorem post_retire (env : Env) (id : CheckpointId) (s : System W) :
    Post (retire env id) s (fun _ s' => Retired id s s') (fun _ s' => s' = s) := by
  simp only [retire, post_bind, post_get]
  cases hfind : s.store.checkpoints.find id with
  | none => rfl
  | some rec =>
      simp only [post_ite, post_throw_store_error, post_bind, post_modify_store,
        post_modify_counters]
      refine ⟨fun _ => trivial, fun hcommitted => ?_⟩
      refine (returns_gc_eligible_checkpoints env).post fun _ s' _ hclock => ?_
      obtain ⟨n, rfl⟩ := hclock
      exact .intro hfind (not_not.mp hcommitted)

end CheckpointStore
