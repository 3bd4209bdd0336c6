import CheckpointStore.Safety.Eligibility
import CheckpointStore.Safety.RecordSteps
import Mathlib.Order.Bounds.Defs

/-!
# What the protected set has in it

The set is a least fixpoint (`protected_set_least`). The rest of the module is about what that
amounts to: parents and bases are in it as far as the lineages list them (`parents_retained`), the
policy that counts is the first one of the family (`protecting_policies_protect`), deleted
checkpoints can get into it (`deleted_retain_nothing`), and a retention time is exact as long as
its end can be represented (`ttl_exact_iff`).
-/

namespace CheckpointStore

open Foundation Foundation.Procedure Foundation.UnorderedMap

variable {W : Type}

/-! ## The least fixpoint -/

/-- A set of existing checkpoints that has the ones `is_protected` accepts and, with a checkpoint,
the existing ones in its lineage. -/
structure Retaining (env : Env) (s : System W) (S : Set CheckpointId) : Prop where
  existing : ∀ cid ∈ S, s.store.checkpoints.contains cid = true
  accepted : ∀ cid rec, s.store.checkpoints.find cid = some rec →
    returned (isProtected env rec (findPolicy s.store rec.descriptor.familyId)
      (buildFamilyGenerations s.store) false s) = some true → cid ∈ S
  ancestors : ∀ cid ∈ S, ∀ rec, s.store.checkpoints.find cid = some rec →
    ∀ anc ∈ rec.manifest.lineage, s.store.checkpoints.contains anc = true → anc ∈ S

section Least

variable {env : Env} {present : TimePoint}

/-- The check accepts exactly what the verdict keeps. -/
theorem accepted_iff (hclock : ∀ n, env.clock n = present) (s : System W)
    (rec : CheckpointRecord) :
    returned (isProtected env rec (findPolicy s.store rec.descriptor.familyId)
      (buildFamilyGenerations s.store) false s) = some true ↔
      keptAt env present s.store rec = true := by
  obtain ⟨n, hrun⟩ := is_protected_eq env s.store rec s
  rw [hrun, hclock]
  simp [returned]

/-- The protected checkpoints are the least such set. -/
theorem protected_least (hclock : ∀ n, env.clock n = present) (s : System W) :
    IsLeast {S | Retaining env s S}
      {cid | Protected s.store (keptAt env present s.store) cid} := by
  constructor
  · exact {
      existing := fun cid h => Protected.contains h
      accepted := fun cid rec hfind h => .self hfind ((accepted_iff hclock s rec).mp h)
      ancestors := fun cid h rec hfind anc hanc hexists => .ancestor h hfind hanc hexists }
  · intro S hS cid h
    induction h with
    | self hfind hkept => exact hS.accepted _ _ hfind ((accepted_iff hclock s _).mpr hkept)
    | ancestor _ hfind hanc hexists ih => exact hS.ancestors _ ih _ hfind _ hanc hexists

/-- The order of the checkpoint map does not matter to what is protected. -/
theorem protected_reordered {store : Store W}
    {checkpoints : UnorderedMap CheckpointId CheckpointRecord}
    (h : store.checkpoints.Reordered checkpoints) (cid : CheckpointId) :
    Protected { store with checkpoints := checkpoints }
        (keptAt env present { store with checkpoints := checkpoints }) cid ↔
      Protected store (keptAt env present store) cid := by
  have hkept : keptAt env present { store with checkpoints := checkpoints } =
      keptAt env present store :=
    kept_at_congr env present rfl rfl fun id => by rw [h.find_eq id]
  rw [hkept]
  constructor
  · exact .of_unchanged fun id _ => h.find_eq id
  · exact .of_unchanged fun id _ => (h.find_eq id).symm

end Least

/-- While the clock stands still, `compute_protected` ends and returns the least set that has the
checkpoints `is_protected` accepts and the existing ancestors of what it has, in whatever order the
checkpoints are visited. -/
theorem protected_set_least {env : Env} {present : TimePoint} (hclock : ∀ n, env.clock n = present)
    (s : System W) :
    ∃ marked s', computeProtectedSet env s = .ok marked s' ∧
      WhileChanged env s.store [] s marked s' ∧
      IsLeast {S | Retaining env s S} {cid | cid ∈ marked} ∧
      ∀ checkpoints, s.store.checkpoints.Reordered checkpoints → ∃ marked' s'',
        computeProtectedSet env
          { s with store := { s.store with checkpoints := checkpoints } } = .ok marked' s'' ∧
        ∀ cid, cid ∈ marked' ↔ cid ∈ marked := by
  obtain ⟨marked, s', hrun, hwhile⟩ := compute_protected_set_ends env s
  have hmem := mem_protected_set_iff (verdict_fixed_clock hclock s.store) hrun
  refine ⟨marked, s', hrun, hwhile, ?_, fun checkpoints hreordered => ?_⟩
  · have hset : {cid | cid ∈ marked} =
        {cid | Protected s.store (keptAt env present s.store) cid} := Set.ext hmem
    rw [hset]
    exact protected_least hclock s
  · obtain ⟨marked', s'', hrun', _⟩ := compute_protected_set_ends env
      { s with store := { s.store with checkpoints := checkpoints } }
    refine ⟨marked', s'', hrun', fun cid => ?_⟩
    rw [mem_protected_set_iff (verdict_fixed_clock hclock _) hrun' cid, hmem cid]
    exact protected_reordered hreordered cid

/-- A store with a cycle, a reference to itself and one to nothing. -/
def tangledOps : List (Op MemoryWorld) :=
  [.createFamily,
    .publish { sampleDescriptor 1 1 0 with lineage := [⟨2⟩, ⟨1⟩, ⟨9⟩] } [],
    .publish { sampleDescriptor 2 2 0 with lineage := [⟨1⟩] } []]

/-- The cycle keeps both, and the loop ends. -/
theorem protected_set_least_tangled :
    ∃ marked s', computeProtectedSet (sampleEnv tagHash) (sampleRun tagHash [] tangledOps) =
      .ok marked s' ∧ IsLeast
        {S | Retaining (sampleEnv tagHash) (sampleRun tagHash [] tangledOps) S}
        {cid | cid ∈ marked} := by
  have hclock : ∀ n, (sampleEnv tagHash).clock n = 0 := fun _ => rfl
  obtain ⟨marked, s', hrun, _, hleast, _⟩ :=
    protected_set_least hclock (sampleRun tagHash [] tangledOps)
  exact ⟨marked, s', hrun, hleast⟩

/-! ## Parents and bases -/

/-- The descriptor of `c` names the existing checkpoint `p` as its parent or its base. -/
def Descends (store : Store W) (c p : CheckpointId) : Prop :=
  ∃ rec, store.checkpoints.find c = some rec ∧
    (rec.descriptor.parentCheckpoint = some p ∨ rec.descriptor.baseCheckpoint = some p) ∧
    store.checkpoints.contains p = true

/-- Parent and base are in the lineage as well. -/
def CheckpointDescriptor.ListsParents (d : CheckpointDescriptor) : Prop :=
  ∀ p, d.parentCheckpoint = some p ∨ d.baseCheckpoint = some p → p ∈ d.lineage

/-- Parent and base of the descriptor are in the lineage of the manifest. -/
def CheckpointRecord.ListsParents (rec : CheckpointRecord) : Prop :=
  ∀ p, rec.descriptor.parentCheckpoint = some p ∨ rec.descriptor.baseCheckpoint = some p →
    p ∈ rec.manifest.lineage

theorem record_invariant_lists_parents (env : Env) :
    RecordInvariant W env CheckpointDescriptor.ListsParents CheckpointRecord.ListsParents where
  published _ _ _ hd := hd
  continued rec rec' h hrec := by
    unfold CheckpointRecord.ListsParents
    rw [h.descriptor, h.manifest]
    exact hrec
  moved _ _ hrec := hrec
  loaded _ hrec := hrec

theorem Saturated.mem_of_descends {env : Env} {store : Store W} {marked : List CheckpointId}
    (h : Saturated env store marked)
    (hlisted : ∀ id rec, store.checkpoints.find id = some rec → rec.ListsParents)
    {c p : CheckpointId} (hdescends : Relation.TransGen (Descends store) c p)
    (hc : c ∈ marked) : p ∈ marked := by
  have hone : ∀ {c p : CheckpointId}, Descends store c p → c ∈ marked → p ∈ marked := by
    rintro c p ⟨rec, hfind, hnames, hexists⟩ hc
    exact h.closed c hc rec hfind p (hlisted c rec hfind p hnames) hexists
  induction hdescends with
  | single hstep => exact hone hstep hc
  | tail _ hstep ih => exact hone hstep ih

/-- In every run, restarts included, whose publications list parent and base in the lineage: with
a checkpoint its parents and bases are in the protected set, through any number of generations, and
a collection that leaves a checkpoint leaves them as they are. -/
theorem parents_retained {env : Env} {start : StoreOptions} {w : W} {s : System W}
    {registered : UnorderedMap StorageBackendId (IBackend W)} {events : List (Event W)}
    (hrun : Run (Step env Anything) (System.fresh start registered w) events s)
    (hlisted : ∀ e ∈ events, ∀ d data, e.published = some (d, data) → d.ListsParents) :
    (∀ marked s', computeProtectedSet env s = .ok marked s' → ∀ c ∈ marked,
      ∀ p, Relation.TransGen (Descends s.store) c p → p ∈ marked) ∧
    ∀ c rec, s.store.checkpoints.find c = some rec →
      (rec.lifecycle = .committed ∨ rec.lifecycle = .retired) →
      (finalState (gcRun env s)).store.lifecycle c ≠ some .deleted →
      ∀ p, Relation.TransGen (Descends s.store) c p →
        (finalState (gcRun env s)).store.checkpoints.find p = s.store.checkpoints.find p := by
  have hrecords := record_invariant_run (record_invariant_lists_parents env) hrun hlisted
  have hparents : ∀ id rec, s.store.checkpoints.find id = some rec → rec.ListsParents :=
    fun id rec hfind => (hrecords id rec hfind).2
  refine ⟨fun marked s' hmarked c hc p hdescends =>
    (computed_set_saturated hmarked).mem_of_descends hparents hdescends hc, ?_⟩
  intro c rec hfind hlifecycle hstays p hdescends
  have hran : GcRan env s (finalState (gcRun env s)) :=
    post_final (P := fun _ (s' : System W) => GcRan env s s') (post_gc_run env s)
  obtain ⟨marked, hmarked, hdeleted⟩ := hran.saturated
  -- What is left is in the set that the collection was guided by.
  have hc : c ∈ marked := by
    by_contra hout
    refine hstays ?_
    rw [Store.lifecycle, hdeleted c, hfind, Option.map_some, Option.map_some,
      if_pos ⟨hlifecycle, hout⟩]
  exact hdeleted.find_of_mem (hmarked.mem_of_descends hparents hdescends hc)

/-- A family of two, where the second has the first as its parent. -/
def childOps (lineage : List CheckpointId) : List (Op MemoryWorld) :=
  [.createFamily, .publish (sampleDescriptor 1 1 0) [],
    .publish { sampleDescriptor 2 2 0 with
      parentCheckpoint := some ⟨1⟩, lineage := lineage } []]

/-- A child keeps its parent. -/
theorem parents_retained_child :
    ∃ marked s', computeProtectedSet (sampleEnv tagHash) (sampleRun tagHash [] (childOps [⟨1⟩])) =
      .ok marked s' ∧ ⟨2⟩ ∈ marked ∧ ⟨1⟩ ∈ marked := by
  have hlisted : ∀ e ∈ callEvents (sampleEnv tagHash) (sampleSystem tagHash []) (childOps [⟨1⟩]),
      ∀ d data, e.published = some (d, data) → d.ListsParents := by
    intro e he d data hpublished
    obtain ⟨op, hop, outcome, rfl⟩ := op_of_mem_call_events he
    simp only [childOps, List.mem_cons, List.not_mem_nil, or_false] at hop
    rcases hop with rfl | rfl | rfl <;> cases outcome <;>
      simp only [Event.published, Option.some.injEq, Prod.mk.injEq, reduceCtorEq] at hpublished
    · rw [← hpublished.1]
      simp [CheckpointDescriptor.ListsParents, sampleDescriptor]
    · rw [← hpublished.1]
      simp [CheckpointDescriptor.ListsParents, sampleDescriptor]
  have hchild : ((sampleRun tagHash [] (childOps [⟨1⟩])).store.checkpoints.find ⟨2⟩).map
      (fun rec => rec.descriptor.parentCheckpoint) = some (some ⟨1⟩) ∧
      (sampleRun tagHash [] (childOps [⟨1⟩])).store.checkpoints.contains ⟨1⟩ = true := by
    decide +kernel
  have hkept : (returned (computeProtectedSet (sampleEnv tagHash)
      (sampleRun tagHash [] (childOps [⟨1⟩])))).any (⟨2⟩ ∈ ·) = true := by
    decide +kernel
  obtain ⟨marked, s', hmarked, _⟩ := returns_compute_protected_set (sampleEnv tagHash)
    (sampleRun tagHash [] (childOps [⟨1⟩]))
  have hin : ⟨2⟩ ∈ marked := by
    rw [hmarked] at hkept
    simpa [returned] using hkept
  obtain ⟨rec, hfind, hparent⟩ := Option.map_eq_some_iff.mp hchild.1
  exact ⟨marked, s', hmarked, hin, (parents_retained (run_calls (sampleEnv tagHash) Anything
    (sampleSystem tagHash []) (childOps [⟨1⟩])) hlisted).1 marked s' hmarked ⟨2⟩ hin ⟨1⟩
    (.single ⟨rec, hfind, Or.inl hparent, hchild.2⟩)⟩

/-- A parent that the lineage does not list is not in the set, and a collection deletes it. -/
theorem unlisted_parent_swept :
    let s := sampleRun sha256Hash [] (childOps [])
    let s' := finalState (gcRun (sampleEnv sha256Hash) s)
    returned (computeProtectedSet (sampleEnv sha256Hash) s) = some [⟨2⟩] ∧
      (s.store.checkpoints.find ⟨2⟩).map (fun rec => rec.descriptor.parentCheckpoint) =
        some (some ⟨1⟩) ∧
      s.store.lifecycle ⟨1⟩ = some .committed ∧ s'.store.lifecycle ⟨1⟩ = some .deleted ∧
      s'.store.lifecycle ⟨2⟩ = some .committed := by
  decide +kernel

/-! ## Protecting policies -/

/-- The protections that do not depend on the lifecycle, policies apart. -/
def CheckpointRecord.Hard (rec : CheckpointRecord) : Prop :=
  rec.replicaSet.durabilityState = .underReplicated ∨ rec.descriptor.retention = .pinned ∨
    rec.descriptor.retention = .restorePoint

/-- The selected policy protects the family. -/
def PolicyProtects (store : Store W) (family : CheckpointFamilyId) : Prop :=
  ∃ policy, findPolicy store family = some policy ∧ policy.policyProtected = true

theorem any_policy_protected_iff {store : Store W} {family : CheckpointFamilyId} :
    (findPolicy store family).any (fun p => p.policyProtected) = true ↔
      PolicyProtects store family := by
  cases hfound : findPolicy store family with
  | none => simp [PolicyProtects, hfound]
  | some policy => simp [PolicyProtects, hfound]

theorem OnlyPolicy.not_protects {store : Store W} {family : CheckpointFamilyId}
    {policy : RetentionPolicy} (h : OnlyPolicy store family policy)
    (hplain : policy.policyProtected = false) : ¬ PolicyProtects store family := by
  rw [← any_policy_protected_iff, h.find_policy]
  simp [hplain]

theorem kept_of_hard {env : Env} {store : Store W} {rec : CheckpointRecord} (h : rec.Hard)
    (present : TimePoint) : keptAt env present store rec = true := by
  unfold keptAt
  rcases h with h | h | h <;> simp [h]

theorem kept_of_policy {env : Env} {store : Store W} {rec : CheckpointRecord}
    (h : PolicyProtects store rec.descriptor.familyId) (present : TimePoint) :
    keptAt env present store rec = true := by
  unfold keptAt
  simp [any_policy_protected_iff.mpr h]

/-- After retirement only these protections are left. -/
theorem not_kept_of_retired {env : Env} {store : Store W} {rec : CheckpointRecord}
    (hretired : rec.lifecycle = .retired ∨ rec.lifecycle = .deleted) (hhard : ¬ rec.Hard)
    (hpolicy : ¬ PolicyProtects store rec.descriptor.familyId) (present : TimePoint) :
    keptAt env present store rec = false := by
  simp only [CheckpointRecord.Hard, not_or] at hhard
  rw [← any_policy_protected_iff] at hpolicy
  unfold keptAt
  rcases hretired with hlifecycle | hlifecycle <;> simp [hhard, hpolicy, hlifecycle]

/-- A family whose selected policy protects it has nothing eligible. -/
theorem not_eligible_of_policy {env : Env} {s s' : System W} {eligible : List CheckpointId}
    (hrun : gcEligibleCheckpoints env s = .ok eligible s') {cid : CheckpointId}
    {rec : CheckpointRecord} (hfind : s.store.checkpoints.find cid = some rec)
    (h : PolicyProtects s.store rec.descriptor.familyId) : cid ∉ eligible := by
  obtain ⟨marked, hmarked, hmem⟩ := gc_eligible_saturated hrun
  intro hin
  obtain ⟨_, _, _, hout⟩ := (hmem cid).mp hin
  exact hout (hmarked.mem_of_kept hfind (kept_of_policy h))

/-- Nothing of the family is eligible, in whichever order the policies are iterated. -/
def NeverEligible (env : Env) (s : System W) (family : CheckpointFamilyId) : Prop :=
  ∀ retention, s.store.retention.Reordered retention → ∃ eligible s', gcEligibleCheckpoints env
      { s with store := { s.store with retention := retention } } = .ok eligible s' ∧
    ∀ cid rec, s.store.checkpoints.find cid = some rec → rec.descriptor.familyId = family →
      cid ∉ eligible

/-- A retired checkpoint that only a policy can protect: it has no protection of its own, and no
lineage names it. -/
structure OnlyByPolicy (store : Store W) (family : CheckpointFamilyId) (cid : CheckpointId)
    (rec : CheckpointRecord) : Prop where
  found : store.checkpoints.find cid = some rec
  family_eq : rec.descriptor.familyId = family
  retired : rec.lifecycle = .retired
  plain : ¬ rec.Hard
  apart : ∀ c r, store.checkpoints.find c = some r → cid ∉ r.manifest.lineage

/-- If the selected policy does not protect the family, such a checkpoint is eligible. -/
theorem OnlyByPolicy.eligible {env : Env} {s s' : System W} {eligible : List CheckpointId}
    (hrun : gcEligibleCheckpoints env s = .ok eligible s') {family : CheckpointFamilyId}
    {cid : CheckpointId} {rec : CheckpointRecord} (h : OnlyByPolicy s.store family cid rec)
    (hpolicy : ¬ PolicyProtects s.store family) : cid ∈ eligible := by
  obtain ⟨marked, hmarked, hmem⟩ := gc_eligible_saturated hrun
  refine (hmem cid).mpr ⟨rec, h.found, .inr h.retired, fun hin => ?_⟩
  obtain ⟨n, haccepted⟩ := hmarked.accepted_of_mem hin h.found h.apart
  rw [not_kept_of_retired (.inl h.retired) h.plain (h.family_eq ▸ hpolicy)] at haccepted
  cases haccepted

/-- When protecting policies protect. If a family has policies and all protect it, or if none of its
checkpoints is committed or retired, then nothing of it is eligible in any iteration order of
the policies. Once the family has a checkpoint that only a policy can protect, all policies have to
protect it: with one in front that does not, the checkpoint is eligible. -/
theorem protecting_policies_protect {env : Env} {s : System W} {family : CheckpointFamilyId}
    (hsome : ∃ id p, s.store.retention.find id = some p ∧ p.familyId = family ∧
      p.policyProtected = true) :
    (((∀ id p, s.store.retention.find id = some p → p.familyId = family →
        p.policyProtected = true) ∨
      (∀ cid rec, s.store.checkpoints.find cid = some rec → rec.descriptor.familyId = family →
        rec.lifecycle ≠ .committed ∧ rec.lifecycle ≠ .retired)) → NeverEligible env s family) ∧
    ((∃ cid rec, OnlyByPolicy s.store family cid rec) →
      (NeverEligible env s family ↔ ∀ id p, s.store.retention.find id = some p →
        p.familyId = family → p.policyProtected = true)) := by
  have hreturns := returns_gc_eligible_checkpoints (W := W) env
  have hall : (∀ id p, s.store.retention.find id = some p → p.familyId = family →
      p.policyProtected = true) → NeverEligible env s family := by
    intro hall retention horder
    have hprotects : PolicyProtects { s.store with retention := retention } family := by
      obtain ⟨id, p, hid, hfamily, _⟩ := hsome
      rw [horder.find_eq] at hid
      cases hfound : findPolicy { s.store with retention := retention } family with
      | none =>
          have hnone := List.find?_eq_none.mp hfound p (mem_values.mpr ⟨id, hid⟩)
          simp [hfamily] at hnone
      | some policy =>
          obtain ⟨id', hid'⟩ := mem_values.mp (mem_values_of_find_policy hfound)
          have hfamily' : policy.familyId = family := by simpa using List.find?_some hfound
          rw [← horder.find_eq] at hid'
          exact ⟨policy, hfound, hall id' policy hid' hfamily'⟩
    obtain ⟨eligible, s', hrun, _⟩ := hreturns
      { s with store := { s.store with retention := retention } }
    exact ⟨eligible, s', hrun, fun cid rec hfind hfamily =>
      not_eligible_of_policy hrun hfind (hfamily ▸ hprotects)⟩
  refine ⟨fun hor => hor.elim hall fun hdone retention _ => ?_, fun hexposed =>
    ⟨fun hnever id p hid hfamily => ?_, hall⟩⟩
  · obtain ⟨eligible, s', hrun, _⟩ := hreturns
      { s with store := { s.store with retention := retention } }
    refine ⟨eligible, s', hrun, fun cid rec hfind hfamily hin => ?_⟩
    obtain ⟨_, _, hmem⟩ := gc_eligible_saturated hrun
    obtain ⟨rec', hfind', hlifecycle, _⟩ := (hmem cid).mp hin
    obtain rfl : rec = rec' := Option.some.inj (hfind.symm.trans hfind')
    exact hlifecycle.elim (hdone cid rec hfind hfamily).1 (hdone cid rec hfind hfamily).2
  · -- Let this policy come first.
    obtain ⟨retention, horder, rest, hvalues⟩ := exists_reordered_first hid
    obtain ⟨cid, rec, hcid⟩ := hexposed
    obtain ⟨eligible, s', hrun, hnone⟩ := hnever retention horder
    by_contra hplain
    refine hnone cid rec hcid.found hcid.family_eq (OnlyByPolicy.eligible hrun
      ⟨hcid.found, hcid.family_eq, hcid.retired, hcid.plain, hcid.apart⟩ ?_)
    rintro ⟨policy, hfound, hprotected⟩
    simp only [findPolicy, hvalues, List.find?_cons, hfamily, decide_true] at hfound
    cases hfound
    exact hplain hprotected

/-- A family of two with two policies, the first of which protects it. -/
def policyOps (second : Bool) : List (Op MemoryWorld) :=
  [.createFamily, .publish (sampleDescriptor 1 1 0) [], .publish (sampleDescriptor 2 2 0) [],
    .setRetentionPolicy { id := ⟨1⟩, familyId := ⟨1⟩, policyProtected := true },
    .setRetentionPolicy { id := ⟨2⟩, familyId := ⟨1⟩, policyProtected := second }]

/-- Both policies of the family protect its checkpoints. -/
theorem protecting_policies_protect_both :
    ∃ eligible s', gcEligibleCheckpoints (sampleEnv tagHash)
        (sampleRun tagHash [] (policyOps true)) = .ok eligible s' ∧ ⟨1⟩ ∉ eligible := by
  generalize hs : sampleRun tagHash [] (policyOps true) = s
  have hpolicies : s.store.retention.find ⟨1⟩ ≠ none ∧ ∀ entry ∈ s.store.retention.entries,
      entry.2.familyId = ⟨1⟩ ∧ entry.2.policyProtected = true := by
    rw [← hs]
    decide +kernel
  have hfamily : (s.store.checkpoints.find ⟨1⟩).map (fun rec => rec.descriptor.familyId) =
      some ⟨1⟩ := by
    rw [← hs]
    decide +kernel
  obtain ⟨policy, hpolicy⟩ := Option.ne_none_iff_exists'.mp hpolicies.1
  obtain ⟨rec, hfind, hrec⟩ := Option.map_eq_some_iff.mp hfamily
  have hall : ∀ id p, s.store.retention.find id = some p → p.familyId = ⟨1⟩ ∧
      p.policyProtected = true := fun id p hp => hpolicies.2 (id, p) (find_eq_some_iff.mp hp)
  have horder : s.store.retention.Reordered s.store.retention :=
    reordered_of_find_eq fun _ => rfl
  obtain ⟨eligible, s', hrun, hnone⟩ := (@protecting_policies_protect _ (sampleEnv tagHash) s ⟨1⟩
    ⟨⟨1⟩, policy, hpolicy, hall _ _ hpolicy⟩).1 (.inl fun id p hp _ => (hall id p hp).2) _ horder
  exact ⟨eligible, s', hrun, hnone ⟨1⟩ rec hfind hrec⟩

/-- With a policy in front that does not protect the family, the other one is not looked at. -/
theorem protecting_policy_overlooked :
    let s := sampleRun sha256Hash [] (policyOps false)
    (s.store.retention.find ⟨1⟩).map (fun p => (p.familyId, p.policyProtected)) =
        some (⟨1⟩, true) ∧
      returned (gcEligibleCheckpoints (sampleEnv sha256Hash) s) = some [⟨1⟩] ∧
      (finalState (gcRun (sampleEnv sha256Hash) s)).store.lifecycle ⟨1⟩ = some .deleted := by
  decide +kernel

/-! ## Deleted checkpoints -/

/-- What has been deleted had no protection of its own, and everything is settled. -/
def DeletedPlain (store : Store W) : Prop :=
  AllSettled store ∧
    ∀ id rec, store.checkpoints.find id = some rec → rec.lifecycle = .deleted → ¬ rec.Hard

theorem deleted_plain_step {env : Env} {R : W → W → Prop} {s s' : System W} {e : Event W}
    (hstep : Step env R s e s') (hreopen : e.reopens = false) (hs : DeletedPlain s.store) :
    DeletedPlain s'.store := by
  obtain ⟨hsettled, hplain⟩ := hs
  have hboth : ∀ id rec', s'.store.checkpoints.find id = some rec' →
      rec'.lifecycle.Settled ∧ (rec'.lifecycle = .deleted → ¬ rec'.Hard) := by
    intro id rec' hfind'
    have hrecord := step_record hstep hreopen hsettled id
    rw [hfind'] at hrecord
    generalize hfind : s.store.checkpoints.find id = before at hrecord
    have hbefore : ∀ rec, before = some rec → rec.lifecycle.Settled := by
      rintro rec rfl
      exact hsettled id _ (by rw [Store.lifecycle, hfind]; rfl)
    cases hrecord with
    | @continued _ rec _ h =>
        refine ⟨h.lifecycle ▸ hbefore rec rfl, fun hdeleted hhard => ?_⟩
        refine hplain id rec hfind (h.lifecycle ▸ hdeleted) ?_
        rw [CheckpointRecord.Hard, ← h.descriptor]
        exact hhard.imp_left h.durability
    | published => exact ⟨.inl rfl, fun h => by cases h⟩
    | retired => exact ⟨.inr (.inl rfl), fun h => by cases h⟩
    | deleted hmarked hout =>
        -- It was left out of a protected set.
        exact ⟨.inr (.inr rfl), fun _ hhard =>
          hout (hmarked.mem_of_kept hfind (kept_of_hard hhard))⟩
  refine ⟨fun id lifecycle hlifecycle => ?_, fun id rec hfind => (hboth id rec hfind).2⟩
  obtain ⟨rec, hfind, rfl⟩ := Option.map_eq_some_iff.mp hlifecycle
  exact (hboth id rec hfind).1

/-- In every run a deleted checkpoint is plain. -/
theorem deleted_plain_run {env : Env} {start : StoreOptions} {w : W} {s : System W}
    {registered : UnorderedMap StorageBackendId (IBackend W)} {events : List (Event W)}
    {files : UnorderedMap Bytes Bytes}
    (hrun : Run (Step env Anything) { System.fresh start registered w with files := files }
      events s)
    (hreopen : ∀ e ∈ events, e.reopens = false) : DeletedPlain s.store := by
  refine Run.invariant_on (A := fun e => e.reopens = false) (fun _ s => DeletedPlain s.store)
    ?_ ?_ hrun hreopen
  · exact ⟨fun id l h => by simp [Store.lifecycle, System.fresh, Store.create] at h,
      fun id rec hfind => by simp [System.fresh, Store.create] at hfind⟩
  · intro _ s e s' _ hs hreopen hstep
    exact deleted_plain_step hstep hreopen hs

/-- No protected set has a deleted checkpoint, if no policy protects one and the lineages of the
others name none. -/
theorem Saturated.not_deleted {env : Env} {store : Store W} {marked : List CheckpointId}
    (h : Saturated env store marked) (hplain : DeletedPlain store)
    (hpolicy : ∀ id rec, store.checkpoints.find id = some rec → rec.lifecycle = .deleted →
      ¬ PolicyProtects store rec.descriptor.familyId)
    (hlineage : ∀ c rec, store.checkpoints.find c = some rec → rec.lifecycle ≠ .deleted →
      ∀ anc ∈ rec.manifest.lineage, store.lifecycle anc ≠ some .deleted) :
    ∀ cid ∈ marked, store.lifecycle cid ≠ some .deleted := by
  refine h.justified.spread (fun cid rec hfind hanswer => ?_) fun c rec anc hc hfind hanc _ => ?_
  · rw [Store.lifecycle, hfind, Option.map_some, ne_eq, Option.some.injEq]
    intro hdeleted
    obtain ⟨n, haccepted⟩ := hanswer
    rw [not_kept_of_retired (.inr hdeleted) (hplain.2 cid rec hfind hdeleted)
      (hpolicy cid rec hfind hdeleted)] at haccepted
    cases haccepted
  · rw [Store.lifecycle, hfind, Option.map_some, ne_eq, Option.some.injEq] at hc
    exact hlineage c rec hfind hc anc hanc

/-- In every state that is reached without a restart: if no deleted checkpoint's selected policy
protects it and no other checkpoint names a deleted one in its lineage, then no deleted checkpoint
is in the protected set, and what `gc_plan` reports as reachable belongs to checkpoints that are not
deleted. Otherwise deleted checkpoints are in the set: those that such a policy protects, and those
in the lineage of a member. -/
theorem deleted_retain_nothing {env : Env} {start : StoreOptions} {w : W} {s : System W}
    {registered : UnorderedMap StorageBackendId (IBackend W)} {events : List (Event W)}
    {files : UnorderedMap Bytes Bytes}
    (hrun : Run (Step env Anything) { System.fresh start registered w with files := files }
      events s)
    (hreopen : ∀ e ∈ events, e.reopens = false) :
    ((∀ id rec, s.store.checkpoints.find id = some rec → rec.lifecycle = .deleted →
        ¬ PolicyProtects s.store rec.descriptor.familyId) →
      (∀ c rec, s.store.checkpoints.find c = some rec → rec.lifecycle ≠ .deleted →
        ∀ anc ∈ rec.manifest.lineage, s.store.lifecycle anc ≠ some .deleted) →
      (∀ marked s', computeProtectedSet env s = .ok marked s' →
        ∀ cid ∈ marked, s.store.lifecycle cid ≠ some .deleted) ∧
      ∀ plan s', gcPlan env s = .ok plan s' → ∀ b ∈ s'.store.gc.reachableBlobs,
        ∃ id rec, s.store.checkpoints.find id = some rec ∧ rec.lifecycle ≠ .deleted ∧
          ∃ cd ∈ rec.chunks, cd.blobId = b) ∧
    ∀ marked s', computeProtectedSet env s = .ok marked s' → ∀ id rec,
      s.store.checkpoints.find id = some rec → rec.lifecycle = .deleted →
      (PolicyProtects s.store rec.descriptor.familyId ∨ ∃ c ∈ marked, ∃ r,
        s.store.checkpoints.find c = some r ∧ id ∈ r.manifest.lineage) → id ∈ marked := by
  have hplain := deleted_plain_run hrun hreopen
  have hkeyed : WellKeyed s.store := well_keyed_run (well_keyed_create start registered) hrun
  refine ⟨fun hpolicy hlineage => ⟨fun marked s' hmarked =>
    (computed_set_saturated hmarked).not_deleted hplain hpolicy hlineage, ?_⟩, ?_⟩
  · intro plan s' hplan b hb
    have hplanned := (post_gc_plan env s).of_ok hplan
    cases hplanned with
    | @intro retained s₁ s₂ n epoch hclock hretained =>
        obtain ⟨n', rfl⟩ := hclock
        have hmarked := computed_set_saturated hretained
        obtain ⟨rec, hrec, hin, hchunk⟩ := mem_compute_reachable.mp hb
        obtain ⟨id, hfind⟩ := mem_values.mp hrec
        rw [hkeyed.checkpoints id rec hfind] at hin
        have hlive := hmarked.not_deleted hplain hpolicy hlineage id hin
        rw [Store.lifecycle, hfind, Option.map_some, ne_eq, Option.some.injEq] at hlive
        exact ⟨id, rec, hfind, hlive, hchunk⟩
  · intro marked s' hmarked id rec hfind _ hreason
    have hsaturated := computed_set_saturated hmarked
    rcases hreason with hpolicy | ⟨c, hc, r, hr, hin⟩
    · exact hsaturated.mem_of_kept hfind (kept_of_policy hpolicy)
    · exact hsaturated.closed c hc r hr id hin (contains_iff.mpr ⟨rec, hfind⟩)

/-- The first of two checkpoints is deleted by a collection. -/
def deletedOps (later : List (Op MemoryWorld)) : List (Op MemoryWorld) :=
  [.createFamily, .publish (sampleDescriptor 1 1 0) [], .publish (sampleDescriptor 2 2 0) [],
    .gcRun] ++ later

/-- A deleted checkpoint is not marked. -/
theorem deleted_retain_nothing_after_gc :
    (sampleRun tagHash [] (deletedOps [])).store.lifecycle ⟨1⟩ = some .deleted ∧
    ∀ marked s', computeProtectedSet (sampleEnv tagHash) (sampleRun tagHash [] (deletedOps [])) =
      .ok marked s' → ⟨1⟩ ∉ marked := by
  have hrun := run_calls (sampleEnv tagHash) Anything (sampleSystem tagHash []) (deletedOps [])
  have hreopen : ∀ e ∈ callEvents (sampleEnv tagHash) (sampleSystem tagHash []) (deletedOps []),
      e.reopens = false := fun _ => reopens_of_mem_call_events (by decide)
  have hfacts : (sampleRun tagHash [] (deletedOps [])).store.lifecycle ⟨1⟩ = some .deleted ∧
      (sampleRun tagHash [] (deletedOps [])).store.retention.values.length = 0 ∧
      ∀ entry ∈ (sampleRun tagHash [] (deletedOps [])).store.checkpoints.entries,
        entry.2.manifest.lineage = [] := by
    decide +kernel
  refine ⟨hfacts.1, fun marked s' hmarked hin => ?_⟩
  refine ((@deleted_retain_nothing _ _ _ _ _ _ _ ∅ hrun hreopen).1 ?_ ?_).1 marked s' hmarked ⟨1⟩
    hin hfacts.1
  · rintro id rec _ _ ⟨policy, hpolicy, _⟩
    have hvalues := mem_values_of_find_policy hpolicy
    exact absurd (List.length_pos_of_mem hvalues) (by rw [← sampleRun, hfacts.2.1]; decide)
  · intro c rec hfind _ anc hanc
    rw [hfacts.2.2 (c, rec) (find_eq_some_iff.mp hfind)] at hanc
    cases hanc

/-- A policy set after the deletion, and a lineage that names the deleted checkpoint, both bring it
into the protected set. -/
theorem deleted_protected :
    let s := sampleRun sha256Hash [] (deletedOps
      [.setRetentionPolicy { id := ⟨1⟩, familyId := ⟨1⟩, policyProtected := true }])
    let s' := sampleRun sha256Hash [] (deletedOps
      [.publish { sampleDescriptor 3 3 0 with lineage := [⟨1⟩] } []])
    s.store.lifecycle ⟨1⟩ = some .deleted ∧ s'.store.lifecycle ⟨1⟩ = some .deleted ∧
      (returned (computeProtectedSet (sampleEnv sha256Hash) s)).any (⟨1⟩ ∈ ·) = true ∧
      (returned (computeProtectedSet (sampleEnv sha256Hash) s')).any (⟨1⟩ ∈ ·) = true := by
  decide +kernel

/-! ## Retention times -/

/-- Clock ticks in a second, as an integer. -/
def ClockPeriod.perSecond : ClockPeriod → Int
  | .nanoseconds => 1000000000
  | .hundredNanoseconds => 10000000

theorem to_int_per_second (period : ClockPeriod) :
    ((1000 : Int64) * period.perMillisecond).toInt = period.perSecond := by
  cases period <;> decide

/-- The end of a retention time is exact modulo `2 ^ 64`. -/
theorem to_int_expiry (period : ClockPeriod) (createdAt : TimePoint) (ttl : Int64) :
    (expiry period createdAt ttl).toInt =
      (createdAt.toInt + ttl.toInt * period.perSecond).bmod (2 ^ 64) := by
  rw [expiry, Int64.toInt_add, Int64.toInt_mul, to_int_per_second, Int.add_bmod_bmod]

/-- While the sum is representable it is the end of the retention time. -/
theorem before_expiry_iff {period : ClockPeriod} {ttl : Int64} {createdAt : TimePoint}
    (hpositive : 0 < ttl) :
    (∀ present : TimePoint, present < expiry period createdAt ttl ↔
      present.toInt < createdAt.toInt + ttl.toInt * period.perSecond) ↔
    createdAt.toInt + ttl.toInt * period.perSecond < 2 ^ 63 := by
  have hsign : 0 < ttl.toInt := Int64.lt_iff_toInt_lt.mp hpositive
  have hlength : 0 ≤ ttl.toInt * period.perSecond := by
    cases period <;> simp only [ClockPeriod.perSecond] <;> omega
  have hcreated := createdAt.le_toInt
  have hexpiry := to_int_expiry period createdAt ttl
  generalize ttl.toInt * period.perSecond = length at hexpiry hlength ⊢
  constructor
  · intro hexact
    by_contra hbeyond
    -- The last representable time is before the end, but after every representable end.
    have hlast : (Int64.maxValue : TimePoint) < expiry period createdAt ttl :=
      (hexact Int64.maxValue).mpr (by
        have hmax : (Int64.maxValue : TimePoint).toInt = 2 ^ 63 - 1 := by decide
        omega)
    have hlt := Int64.lt_iff_toInt_lt.mp hlast
    have hmax : (Int64.maxValue : TimePoint).toInt = 2 ^ 63 - 1 := by decide
    have hbound := (expiry period createdAt ttl).toInt_lt
    omega
  · intro hfits present
    rw [Int64.lt_iff_toInt_lt, hexpiry, Int.bmod_eq_of_le (by omega) (by omega)]

/-- A retention time is exact at every clock reading if and only if its end is representable. -/
theorem ttl_exact_iff {env : Env} {s : System W} {cid : CheckpointId} {rec : CheckpointRecord}
    {policy : RetentionPolicy} (hfind : s.store.checkpoints.find cid = some rec)
    (hcommitted : rec.lifecycle = .committed) (hretention : rec.descriptor.retention = .ttl)
    (hreplicated : rec.replicaSet.durabilityState ≠ .underReplicated)
    (hapart : ∀ c r, s.store.checkpoints.find c = some r → cid ∉ r.manifest.lineage)
    (hpolicy : OnlyPolicy s.store rec.descriptor.familyId policy)
    (hplain : policy.policyProtected = false) (httl : 0 < policy.ttl) :
    (∀ (present : TimePoint) marked s',
      computeProtectedSet { env with clock := fun _ => present } s = .ok marked s' →
      (cid ∈ marked ↔ present.toInt <
        rec.descriptor.createdAt.toInt + policy.ttl.toInt * env.period.perSecond)) ↔
    rec.descriptor.createdAt.toInt + policy.ttl.toInt * env.period.perSecond < 2 ^ 63 := by
  rw [← before_expiry_iff httl]
  refine forall_congr' fun present => ?_
  have hage : AgeDecides s.store rec policy :=
    ⟨hpolicy.find_policy, hplain, httl, hreplicated, by simp [hcommitted], hretention⟩
  have hmem : ∀ marked s',
      computeProtectedSet { env with clock := fun _ => present } s = .ok marked s' →
      (cid ∈ marked ↔ present < expiry env.period rec.descriptor.createdAt policy.ttl) := by
    intro marked s' hrun
    rw [(computed_set_saturated hrun).mem_iff hfind hapart fun _ => hage.kept_at _ present]
    exact decide_eq_true_iff
  constructor
  · intro hexact
    obtain ⟨marked, s', hrun, _⟩ := returns_compute_protected_set
      { env with clock := fun _ => present } s
    exact (hmem marked s' hrun).symm.trans (hexact marked s' hrun)
  · intro hexact marked s' hrun
    exact (hmem marked s' hrun).trans hexact

/-- One checkpoint with a retention time of `ttl` seconds. -/
def ttlOps (ttl : Int64) : List (Op MemoryWorld) :=
  [.createFamily, .publish { sampleDescriptor 1 1 0 with retention := .ttl } [],
    .setRetentionPolicy { id := ⟨1⟩, familyId := ⟨1⟩, ttl := ttl }]

/-- Kept before the hour is over, and not after it. -/
theorem ttl_exact_hour :
    (∃ marked s', computeProtectedSet { sampleEnv tagHash with clock := fun _ => 3599999999999 }
      (sampleRun tagHash [] (ttlOps 3600)) = .ok marked s' ∧ ⟨1⟩ ∈ marked) ∧
    ∃ marked s', computeProtectedSet { sampleEnv tagHash with clock := fun _ => 3600000000000 }
      (sampleRun tagHash [] (ttlOps 3600)) = .ok marked s' ∧ ⟨1⟩ ∉ marked := by
  generalize hs : sampleRun tagHash [] (ttlOps 3600) = s
  have hrecord : (s.store.checkpoints.find ⟨1⟩).any (fun rec => rec.lifecycle = .committed ∧
      rec.descriptor.retention = .ttl ∧ rec.replicaSet.durabilityState ≠ .underReplicated ∧
      rec.descriptor.familyId = ⟨1⟩ ∧ rec.descriptor.createdAt = 0) = true ∧
      ∀ entry ∈ s.store.checkpoints.entries, entry.2.manifest.lineage = [] := by
    rw [← hs]
    decide +kernel
  have hpolicies : s.store.retention.find ⟨1⟩ ≠ none ∧
      ∀ entry ∈ s.store.retention.entries, entry.1 = ⟨1⟩ ∧ entry.2.familyId = ⟨1⟩ ∧
        entry.2.policyProtected = false ∧ entry.2.ttl = 3600 := by
    rw [← hs]
    decide +kernel
  obtain ⟨policy, hpolicy⟩ := Option.ne_none_iff_exists'.mp hpolicies.1
  obtain ⟨_, hfamily, hplain, httl⟩ := hpolicies.2 (⟨1⟩, policy) (find_eq_some_iff.mp hpolicy)
  cases hfind : s.store.checkpoints.find ⟨1⟩ with
  | none => simp [hfind] at hrecord
  | some rec =>
      simp only [hfind, Option.any_some, decide_eq_true_eq] at hrecord
      obtain ⟨⟨hcommitted, hretention, hreplicated, hrec, hcreated⟩, hlineage⟩ := hrecord
      have honly : OnlyPolicy s.store rec.descriptor.familyId policy :=
        only_policy_of_entries hpolicy (hfamily.trans hrec.symm) fun entry he =>
          (hpolicies.2 entry he).1
      have hapart : ∀ c r, s.store.checkpoints.find c = some r → ⟨1⟩ ∉ r.manifest.lineage := by
        intro c r hr
        have hempty : r.manifest.lineage = [] := hlineage (c, r) (find_eq_some_iff.mp hr)
        simp [hempty]
      have hexact := (@ttl_exact_iff _ (sampleEnv tagHash) _ _ _ _ hfind hcommitted hretention
        hreplicated hapart honly hplain (by rw [httl]; decide)).mpr
        (by rw [httl, hcreated]; decide)
      rw [httl, hcreated] at hexact
      constructor
      · obtain ⟨marked, s', hrun, _⟩ := returns_compute_protected_set
          { sampleEnv tagHash with clock := fun _ => 3599999999999 } s
        exact ⟨marked, s', hrun, (hexact _ marked s' hrun).mpr (by decide)⟩
      · obtain ⟨marked, s', hrun, _⟩ := returns_compute_protected_set
          { sampleEnv tagHash with clock := fun _ => 3600000000000 } s
        exact ⟨marked, s', hrun, fun hin => absurd ((hexact _ marked s' hrun).mp hin) (by decide)⟩

/-- A retention time of `2 ^ 63 - 1` seconds has ended when it begins. -/
theorem ttl_wraps_around :
    let s := sampleRun sha256Hash [] (ttlOps Int64.maxValue)
    (s.store.checkpoints.find ⟨1⟩).map (fun rec => (rec.lifecycle, rec.descriptor.createdAt)) =
        some (.committed, 0) ∧
      returned (computeProtectedSet (sampleEnv sha256Hash) s) = some [] ∧
      (0 : TimePoint).toInt < (0 : TimePoint).toInt +
        Int64.maxValue.toInt * (sampleEnv sha256Hash).period.perSecond := by
  decide +kernel

end CheckpointStore
