import CheckpointStore.Safety.Recovered
import CheckpointStore.Store.Protection

/-!
# Eligibility after recovery

What a recovered store considers garbage. Everything that `is_protected` reads comes back from the
state file, except that creation times are rounded to milliseconds and that of several policies
for one family another one may come first. `kept_at_recovered` is the comparison of the verdicts
where neither matters, and `protected_recovered_iff` that of the protected sets. Where age decides
about a checkpoint (`AgeDecides`), the rounding has to be harmless: `eligibility_recovered` has both
directions.
-/

namespace CheckpointStore

open Foundation Foundation.Procedure Foundation.UnorderedMap

variable {W : Type}

/-! ## Stores with corresponding records -/

/-- Two stores protect the same checkpoints when the records correspond, are kept alike and have
the same lineages. -/
theorem Protected.of_corresponding {store store' : Store W} {kept kept' : CheckpointRecord → Bool}
    {f : CheckpointRecord → CheckpointRecord}
    (hfind : ∀ id, store'.checkpoints.find id = (store.checkpoints.find id).map f)
    (hkept : ∀ id rec, store.checkpoints.find id = some rec → kept' (f rec) = kept rec)
    (hlineage : ∀ rec, (f rec).manifest.lineage = rec.manifest.lineage) (cid : CheckpointId) :
    Protected store' kept' cid ↔ Protected store kept cid := by
  have hcontains : ∀ id, store'.checkpoints.contains id = store.checkpoints.contains id := by
    intro id
    rw [UnorderedMap.contains, UnorderedMap.contains, hfind, Option.isSome_map]
  constructor
  · intro h
    induction h with
    | @self cid rec hrec hself =>
        rw [hfind, Option.map_eq_some_iff] at hrec
        obtain ⟨rec', hrec', rfl⟩ := hrec
        exact .self hrec' ((hkept cid rec' hrec').symm.trans hself)
    | @ancestor cid anc rec _ hrec hin hexists ih =>
        rw [hfind, Option.map_eq_some_iff] at hrec
        obtain ⟨rec', hrec', rfl⟩ := hrec
        exact .ancestor ih hrec' (hlineage rec' ▸ hin) ((hcontains anc).symm.trans hexists)
  · intro h
    induction h with
    | @self cid rec hrec hself =>
        exact .self (by rw [hfind, hrec]; rfl) ((hkept cid rec hrec).trans hself)
    | @ancestor cid anc rec _ hrec hin hexists ih =>
        exact .ancestor ih (by rw [hfind, hrec]; rfl) ((hlineage rec).symm ▸ hin)
          ((hcontains anc).trans hexists)

/-! ## Verdicts after recovery -/

/-- No family with a checkpoint has two policies. -/
def SinglePolicies (store : Store W) : Prop :=
  ∀ cid rec, store.checkpoints.find cid = some rec → ∀ id id' p p',
    store.retention.find id = some p → store.retention.find id' = some p' →
    p.familyId = rec.descriptor.familyId → p'.familyId = rec.descriptor.familyId → p = p'

/-- Where families have one policy each, `find_policy` does not depend on the iteration order. -/
theorem find_policy_eq_some_iff {store : Store W} (hsingle : SinglePolicies store)
    {cid : CheckpointId} {rec : CheckpointRecord} (hfind : store.checkpoints.find cid = some rec)
    {p : RetentionPolicy} :
    findPolicy store rec.descriptor.familyId = some p ↔
      ∃ id, store.retention.find id = some p ∧ p.familyId = rec.descriptor.familyId := by
  constructor
  · intro h
    obtain ⟨id, hid⟩ := mem_values.mp (mem_values_of_find_policy h)
    exact ⟨id, hid, by simpa using List.find?_some h⟩
  · rintro ⟨id, hid, hfamily⟩
    have honly : OnlyPolicy store rec.descriptor.familyId p :=
      ⟨⟨id, hid⟩, hfamily, fun id' p' hid' hfamily' =>
        hsingle cid rec hfind id' id p' p hid' hid hfamily' hfamily⟩
    exact honly.find_policy

section Recovered

variable {period : ClockPeriod} {saved store : Store W}

/-- The policy of a checkpoint is selected again. -/
theorem find_policy_recovered (h : Reproduces period saved store) (hsingle : SinglePolicies saved)
    {cid : CheckpointId} {rec : CheckpointRecord} (hfind : saved.checkpoints.find cid = some rec) :
    findPolicy store rec.descriptor.familyId = findPolicy saved rec.descriptor.familyId := by
  have hsingle' : SinglePolicies store := by
    intro cid rec hrec id id' p p' hp hp'
    rw [h.checkpoints, Option.map_eq_some_iff] at hrec
    obtain ⟨rec', hrec', rfl⟩ := hrec
    rw [h.retention] at hp hp'
    exact hsingle cid rec' hrec' id id' p p' hp hp'
  have hfind' : store.checkpoints.find cid = some (rec.truncated period) := by
    rw [h.checkpoints, hfind, Option.map_some]
  refine Option.ext fun p => ?_
  rw [find_policy_eq_some_iff hsingle hfind]
  exact (find_policy_eq_some_iff hsingle' hfind').trans (by simp only [h.retention]; rfl)

theorem generation_less_recovered (h : Reproduces period saved store) :
    generationLess store = generationLess saved := by
  funext a b
  unfold generationLess
  rw [h.checkpoints, h.checkpoints]
  cases saved.checkpoints.find a <;> cases saved.checkpoints.find b <;> rfl

theorem kept_as_latest_recovered (h : Reproduces period saved store) (hkeyed : WellKeyed saved)
    (rec : CheckpointRecord) (policy : Option RetentionPolicy) :
    keptAsLatest (rec.truncated period) policy (buildFamilyGenerations store) =
      keptAsLatest rec policy (buildFamilyGenerations saved) := by
  have hlists : (buildFamilyGenerations store).find
      (rec.truncated period).descriptor.familyId.value =
      (buildFamilyGenerations saved).find rec.descriptor.familyId.value := by
    rw [find_build_family_generations hkeyed.families,
      find_build_family_generations (h.well_keyed hkeyed).families, h.families]
    unfold byGeneration
    rw [generation_less_recovered h]
    rfl
  unfold keptAsLatest
  rw [hlists]
  rfl

end Recovered

/-- When a retention time of `ttl` seconds ends. -/
def expiry (period : ClockPeriod) (createdAt : TimePoint) (ttl : Int64) : TimePoint :=
  createdAt + ttl * (1000 * period.perMillisecond)

/-- What the store has to say about a checkpoint depends on its age, under the policy `p`. -/
structure AgeDecides (store : Store W) (rec : CheckpointRecord) (p : RetentionPolicy) : Prop where
  policy : findPolicy store rec.descriptor.familyId = some p
  plain : p.policyProtected = false
  limited : 0 < p.ttl
  replicated : rec.replicaSet.durabilityState ≠ .underReplicated
  live : ¬ (rec.lifecycle = .retired ∨ rec.lifecycle = .gcEligible ∨ rec.lifecycle = .deleted)
  retention : rec.descriptor.retention = .ttl

/-- Where age decides, the verdict is the expiry. -/
theorem AgeDecides.kept_at {store : Store W} {rec : CheckpointRecord} {p : RetentionPolicy}
    (h : AgeDecides store rec p) (env : Env) (present : TimePoint) :
    keptAt env present store rec =
      decide (present < expiry env.period rec.descriptor.createdAt p.ttl) := by
  simp only [keptAt, h.policy, h.replicated, h.retention, h.plain, h.live, h.limited,
    Option.any_some, Option.all_some, true_imp_iff, if_true, if_false, reduceCtorEq, or_self,
    Bool.false_eq_true]
  rfl

/-- At the time `present`, rounding the creation time to milliseconds lets no checkpoint expire and
revives none, under a retention time of `ttl` seconds. -/
def RoundingHarmless (period : ClockPeriod) (present createdAt : TimePoint) (ttl : Int64) : Prop :=
  present < expiry period createdAt ttl ↔ present < expiry period (period.truncate createdAt) ttl

/-- Whether a checkpoint is unexpired at the time `present`, or has no retention time. -/
def unexpired (period : ClockPeriod) (present createdAt : TimePoint)
    (policy : Option RetentionPolicy) : Bool :=
  policy.all fun p => 0 < p.ttl → present < expiry period createdAt p.ttl

/-- The verdict on a record, given those on its place in the family and on its age. -/
def keptWith (policy : Option RetentionPolicy) (latest young : Bool) (rec : CheckpointRecord) :
    Bool :=
  if rec.replicaSet.durabilityState = .underReplicated then true
  else if rec.descriptor.retention = .pinned ∨ rec.descriptor.retention = .restorePoint then true
  else if policy.any (fun p => p.policyProtected) then true
  else if rec.lifecycle = .retired ∨ rec.lifecycle = .gcEligible ∨ rec.lifecycle = .deleted then
    false
  else if rec.descriptor.retention = .keepLatestN then latest
  else if rec.descriptor.retention = .ttl then young
  else false

/-- The verdict by its three reasons. -/
theorem kept_at_eq (env : Env) (present : TimePoint) (store : Store W) (rec : CheckpointRecord) :
    keptAt env present store rec =
      keptWith (findPolicy store rec.descriptor.familyId)
        (keptAsLatest rec (findPolicy store rec.descriptor.familyId) (buildFamilyGenerations store))
        (unexpired env.period present rec.descriptor.createdAt
          (findPolicy store rec.descriptor.familyId)) rec :=
  rfl

/-- Only checkpoints with a retention time are judged by their age, and only as long as nothing else
decides. -/
theorem kept_with_congr {policy : Option RetentionPolicy} {latest young young' : Bool}
    {rec : CheckpointRecord} (h : rec.replicaSet.durabilityState ≠ .underReplicated →
      ¬ policy.any (fun p => p.policyProtected) →
      ¬ (rec.lifecycle = .retired ∨ rec.lifecycle = .gcEligible ∨ rec.lifecycle = .deleted) →
      rec.descriptor.retention = .ttl → young = young') :
    keptWith policy latest young rec = keptWith policy latest young' rec := by
  unfold keptWith
  split_ifs with hreplicated _ hprotected hlive _ hretention
  all_goals first
    | rfl
    | exact h hreplicated hprotected hlive hretention

/-- The verdict does not look at the creation time again. -/
theorem kept_with_truncated (period : ClockPeriod) (policy : Option RetentionPolicy)
    (latest young : Bool) (rec : CheckpointRecord) :
    keptWith policy latest young (rec.truncated period) = keptWith policy latest young rec :=
  rfl

section Recovered

variable {env : Env} {present : TimePoint} {saved store : Store W}

/-- Rounding is harmless wherever age decides. -/
def AllRoundingHarmless (period : ClockPeriod) (present : TimePoint) (store : Store W) : Prop :=
  ∀ id rec p, store.checkpoints.find id = some rec → AgeDecides store rec p →
    RoundingHarmless period present rec.descriptor.createdAt p.ttl

/-- The verdict on a checkpoint is the same after recovery. -/
theorem kept_at_recovered
    (h : Reproduces env.period saved store) (hkeyed : WellKeyed saved)
    (hsingle : SinglePolicies saved) (hharmless : AllRoundingHarmless env.period present saved)
    {id : CheckpointId} {rec : CheckpointRecord} (hfind : saved.checkpoints.find id = some rec) :
    keptAt env present store (rec.truncated env.period) = keptAt env present saved rec := by
  have hfamily : (rec.truncated env.period).descriptor.familyId = rec.descriptor.familyId := rfl
  have hcreated : (rec.truncated env.period).descriptor.createdAt =
      env.period.truncate rec.descriptor.createdAt := rfl
  rw [kept_at_eq, kept_at_eq, hfamily, hcreated, find_policy_recovered h hsingle hfind,
    kept_as_latest_recovered h hkeyed, kept_with_truncated]
  refine kept_with_congr fun hreplicated hplain hlive hretention => ?_
  unfold unexpired
  cases hfound : findPolicy saved rec.descriptor.familyId with
  | none => rw [Option.all_none, Option.all_none]
  | some p =>
      rw [hfound, Option.any_some, Bool.not_eq_true] at hplain
      simp only [Option.all_some, decide_eq_decide]
      exact imp_congr_right fun hlimited => (hharmless id rec p hfind
        ⟨hfound, hplain, hlimited, hreplicated, hlive, hretention⟩).symm

/-- A recovered store protects the same checkpoints. -/
theorem protected_recovered_iff
    (h : Reproduces env.period saved store) (hkeyed : WellKeyed saved)
    (hsingle : SinglePolicies saved) (hharmless : AllRoundingHarmless env.period present saved)
    (cid : CheckpointId) :
    Protected store (keptAt env present store) cid ↔
      Protected saved (keptAt env present saved) cid :=
  Protected.of_corresponding h.checkpoints
    (fun _ _ hfind => kept_at_recovered h hkeyed hsingle hharmless hfind) (fun _ => rfl) cid

/-- A checkpoint that no lineage names is protected by itself or not at all. -/
theorem protected_iff_of_apart {kept : CheckpointRecord → Bool} {cid : CheckpointId}
    {rec : CheckpointRecord} (hfind : store.checkpoints.find cid = some rec)
    (hapart : ∀ c r, store.checkpoints.find c = some r → cid ∉ r.manifest.lineage) :
    Protected store kept cid ↔ kept rec = true := by
  refine ⟨fun h => ?_, fun hkept => .self hfind hkept⟩
  cases h with
  | self hfind' hkept => rwa [Option.some.inj (hfind.symm.trans hfind')]
  | ancestor _ hrec hin _ => exact absurd hin (hapart _ _ hrec)

/-- Where age decides about a checkpoint that no lineage names, the stores agree on it only if the
rounding is harmless. -/
theorem harmless_of_protected_iff (h : Reproduces env.period saved store)
    (hsingle : SinglePolicies saved) {cid : CheckpointId} {rec : CheckpointRecord}
    (hfind : saved.checkpoints.find cid = some rec)
    (hapart : ∀ c r, saved.checkpoints.find c = some r → cid ∉ r.manifest.lineage)
    {p : RetentionPolicy} (hage : AgeDecides saved rec p)
    (hsame : Protected store (keptAt env present store) cid ↔
      Protected saved (keptAt env present saved) cid) :
    RoundingHarmless env.period present rec.descriptor.createdAt p.ttl := by
  have hfind' : store.checkpoints.find cid = some (rec.truncated env.period) := by
    rw [h.checkpoints, hfind, Option.map_some]
  have hapart' : ∀ c r, store.checkpoints.find c = some r → cid ∉ r.manifest.lineage := by
    intro c r hr
    rw [h.checkpoints, Option.map_eq_some_iff] at hr
    obtain ⟨r', hr', rfl⟩ := hr
    exact hapart c r' hr'
  have hage' : AgeDecides store (rec.truncated env.period) p :=
    ⟨(find_policy_recovered h hsingle hfind).trans hage.policy, hage.plain, hage.limited,
      hage.replicated, hage.live, hage.retention⟩
  rw [protected_iff_of_apart hfind' hapart', protected_iff_of_apart hfind hapart,
    hage'.kept_at, hage.kept_at, decide_eq_true_iff, decide_eq_true_iff] at hsame
  exact hsame.symm

end Recovered

/-! ## Runs -/

/-- The environment in which the clock shows `present`. -/
def Env.at (env : Env) (present : TimePoint) : Env := { env with clock := fun _ => present }

/-- When recovery preserves eligibility. In any state of a run in which no family with a checkpoint
has two policies, after a completed save, a fresh store that has loaded the file answers
`gc_eligible_checkpoints` with the same checkpoints as the store that saved, if no retention time
that decides about a checkpoint ends within the rounding of its creation time. This is necessary for
every committed checkpoint that no lineage names. -/
theorem eligibility_recovered {env : Env} {s s₁ s₂ : System W} {answers : WriteAnswers}
    {start : StoreOptions} {registered : UnorderedMap StorageBackendId (IBackend W)} {w : W}
    {files : UnorderedMap Bytes Bytes} {events : List (Event W)}
    (hrun : Run (Step env Anything) { System.fresh start registered w with files := files }
      events s)
    (hsave : saveState env answers s = .ok () s₁) {options : StoreOptions}
    (hpath : options.statePath = s.store.options.statePath)
    {backends : UnorderedMap StorageBackendId (IBackend W)}
    (hload : reopenStore env options backends s₁ = .ok () s₂) {present : TimePoint}
    (hsingle : SinglePolicies s.store) :
    ∃ eligible eligible₂ t t₂, gcEligibleCheckpoints (env.at present) s = .ok eligible t ∧
      gcEligibleCheckpoints (env.at present) s₂ = .ok eligible₂ t₂ ∧
      (AllRoundingHarmless env.period present s.store →
        ∀ cid, cid ∈ eligible ↔ cid ∈ eligible₂) ∧
      ((∀ cid, cid ∈ eligible ↔ cid ∈ eligible₂) →
        ∀ cid rec p, s.store.checkpoints.find cid = some rec → rec.lifecycle = .committed →
          (∀ c r, s.store.checkpoints.find c = some r → cid ∉ r.manifest.lineage) →
          AgeDecides s.store rec p →
          RoundingHarmless env.period present rec.descriptor.createdAt p.ttl) := by
  have hkeyed : WellKeyed s.store := well_keyed_run (well_keyed_create start registered) hrun
  obtain ⟨-, hs₂⟩ := (post_reopen_saved hkeyed hsave hpath backends).of_ok hload
  have hreproduces : Reproduces env.period s.store s₂.store := by
    rw [hs₂]
    exact recovered_reproduces env.period hkeyed fun _ => rfl
  clear hs₂ hload
  obtain ⟨eligible, t, heligible, -⟩ := returns_gc_eligible_checkpoints (env.at present) s
  obtain ⟨eligible₂, t₂, heligible₂, -⟩ := returns_gc_eligible_checkpoints (env.at present) s₂
  -- The sets differ at most in what is protected.
  have hmem : ∀ {cid rec}, s.store.checkpoints.find cid = some rec →
      (rec.lifecycle = .committed ∨ rec.lifecycle = .retired) →
      ((cid ∈ eligible ↔ cid ∈ eligible₂) ↔
        (Protected s₂.store (keptAt (env.at present) present s₂.store) cid ↔
          Protected s.store (keptAt (env.at present) present s.store) cid)) := by
    intro cid rec hrec hlifecycle
    have hrec₂ : s₂.store.checkpoints.find cid = some (rec.truncated env.period) := by
      rw [hreproduces.checkpoints, hrec, Option.map_some]
    have hlifecycle₂ : (rec.truncated env.period).lifecycle = .committed ∨
        (rec.truncated env.period).lifecycle = .retired := hlifecycle
    rw [mem_gc_eligible_iff (verdict_fixed_clock (fun _ => rfl) s.store) heligible cid,
      mem_gc_eligible_iff (verdict_fixed_clock (fun _ => rfl) s₂.store) heligible₂ cid, hrec, hrec₂]
    simp only [Option.some.injEq, exists_eq_left', hlifecycle, hlifecycle₂, true_and, not_iff_not]
    exact iff_comm
  refine ⟨eligible, eligible₂, t, t₂, heligible, heligible₂, fun hharmless cid => ?_,
    fun hsame cid rec p hrec hcommitted hapart hage => ?_⟩
  · have hprotected : Protected s₂.store (keptAt (env.at present) present s₂.store) cid ↔
        Protected s.store (keptAt (env.at present) present s.store) cid :=
      protected_recovered_iff hreproduces hkeyed hsingle hharmless cid
    constructor
    · intro hin
      obtain ⟨rec, hrec, hlifecycle, -⟩ :=
        (mem_gc_eligible_iff (verdict_fixed_clock (fun _ => rfl) s.store) heligible cid).mp hin
      exact ((hmem hrec hlifecycle).mpr hprotected).mp hin
    · intro hin
      obtain ⟨rec₂, hrec₂, hlifecycle, -⟩ :=
        (mem_gc_eligible_iff (verdict_fixed_clock (fun _ => rfl) s₂.store) heligible₂ cid).mp hin
      rw [hreproduces.checkpoints, Option.map_eq_some_iff] at hrec₂
      obtain ⟨rec, hrec, rfl⟩ := hrec₂
      exact ((hmem hrec hlifecycle).mpr hprotected).mpr hin
  · exact harmless_of_protected_iff hreproduces hsingle hrec hapart hage
      ((hmem hrec (.inl hcommitted)).mp (hsame cid))

/-- A family with a retention time of one second, and a checkpoint of it that was created one
tick after the epoch of the clock. -/
def expiringSample : List (Op MemoryWorld) :=
  [.createFamily, .setRetentionPolicy { id := ⟨1⟩, familyId := ⟨1⟩, ttl := 1 },
    .publish { sampleDescriptor 7 1 1 with retention := .ttl, createdAt := 1 } [5]]

/-- A checkpoint whose TTL is over. -/
theorem eligibility_recovered_expired :
    let env := sampleEnv tagHash
    let s := sampleRun tagHash [] expiringSample
    ∃ s₂, reopenStore env {} ∅ (finalState (saveState env {} s)) = .ok () s₂ ∧
      returned (gcEligibleCheckpoints (env.at 1000000001) s) = some [⟨7⟩] ∧
      ∃ eligible₂ t₂, gcEligibleCheckpoints (env.at 1000000001) s₂ = .ok eligible₂ t₂ ∧
        ∀ cid : CheckpointId, cid ∈ [⟨7⟩] ↔ cid ∈ eligible₂ := by
  intro env s
  have hrun : Run (Step env Anything)
      { System.fresh { chunkSize := 1 } (assign ⟨1⟩ (memoryBackend tagHash) ∅) {} with files := ∅ }
      (callEvents env (sampleSystem tagHash []) expiringSample) s :=
    run_calls env Anything (sampleSystem tagHash []) expiringSample
  have hstate : Recoverable .nanoseconds s.store ∧ s.store.options.statePath = [] ∧
      returned (gcEligibleCheckpoints (env.at 1000000001) s) = some [⟨7⟩] ∧
      s.store.retention.entries.map (fun entry => entry.2.ttl) = [1] ∧
      s.store.checkpoints.entries.map (fun entry => entry.2.descriptor.createdAt) = [1] := by
    decide +kernel
  obtain ⟨hrecoverable, hpath, heligible, hpolicies, hrecords⟩ := hstate
  have hload := reopen_saved_returns (well_keyed_run (well_keyed_create _ _) hrun)
    (save_state_returns env s) (show ({} : StoreOptions).statePath = _ from hpath.symm) ∅
    hrecoverable
  clear_value s
  have hpolicy : ∀ {id p}, s.store.retention.find id = some p →
      s.store.retention.entries = [(id, p)] ∧ p.ttl = 1 := by
    intro id p hp
    have hin := find_eq_some_iff.mp hp
    obtain ⟨entry, hentry, httl⟩ := List.map_eq_singleton_iff.mp hpolicies
    rw [hentry, List.mem_singleton] at hin
    exact ⟨by rw [hentry, hin], by rw [← httl, ← hin]⟩
  have hsingle : SinglePolicies s.store := by
    intro _ _ _ id id' p p' hp hp' _ _
    have hsame := (hpolicy hp).1.symm.trans (hpolicy hp').1
    cases hsame
    rfl
  have hharmless : AllRoundingHarmless .nanoseconds 1000000001 s.store := by
    intro id rec p hrec hage
    obtain ⟨policyId, hp⟩ := mem_values.mp (mem_values_of_find_policy hage.policy)
    obtain ⟨entry, hentry, hcreated⟩ := List.map_eq_singleton_iff.mp hrecords
    have hin := find_eq_some_iff.mp hrec
    rw [hentry, List.mem_singleton] at hin
    have hfirst : rec.descriptor.createdAt = 1 := by rw [← hcreated, ← hin]
    rw [RoundingHarmless, (hpolicy hp).2, hfirst]
    decide
  obtain ⟨eligible, eligible₂, t, t₂, hrun₁, hrun₂, hsame, -⟩ :=
    eligibility_recovered hrun (save_state_returns env s)
      (show ({} : StoreOptions).statePath = _ from hpath.symm) hload hsingle
  refine ⟨_, hload, heligible, eligible₂, t₂, hrun₂, ?_⟩
  rw [hrun₁] at heligible
  cases heligible
  exact hsame hharmless

/-- At the end of the retention time, the tick that is lost in the state file makes a checkpoint
eligible that the saving store still protects. -/
theorem eligibility_lost_in_rounding :
    let env := sampleEnv sha256Hash
    let s := sampleRun sha256Hash [] expiringSample
    ∃ s₂, reopenStore env {} ∅ (finalState (saveState env {} s)) = .ok () s₂ ∧
      returned (gcEligibleCheckpoints (env.at 1000000000) s) = some [] ∧
      returned (gcEligibleCheckpoints (env.at 1000000000) s₂) = some [⟨7⟩] := by
  intro env s
  have hkeyed : WellKeyed s.store :=
    well_keyed_run (well_keyed_create _ _) (run_calls _ Anything (sampleSystem sha256Hash []) _)
  have hstate : Recoverable .nanoseconds s.store ∧ s.store.options.statePath = [] ∧
      returned (gcEligibleCheckpoints (env.at 1000000000) s) = some [] ∧
      returned (gcEligibleCheckpoints (env.at 1000000000)
        { finalState (saveState env {} s) with
          store := reloaded .nanoseconds s.store {} ∅ }) = some [⟨7⟩] := by
    decide +kernel
  obtain ⟨hrecoverable, hpath, hbefore, hafter⟩ := hstate
  exact ⟨_, reopen_saved_returns hkeyed (save_state_returns env s)
    (show ({} : StoreOptions).statePath = _ from hpath.symm) ∅ hrecoverable, hbefore, hafter⟩

end CheckpointStore
