import CheckpointStore.Coordinator.Authority
import CheckpointStore.Store.Protection

/-!
# Retention requests

All policies that the coordinator sets have the same identity, so that its table holds the last of
them only, whatever families they are for (`retained_run`). A family keeps the `latest_n` of its
request until a request for another family comes in; from then on it is treated as one without a
policy. `retention_requests_interfere` says exactly when this makes a difference.
-/

namespace CheckpointStore

open Foundation Foundation.Procedure Foundation.UnorderedMap ProtoOps

variable {W : Type}

/-! ## What requests do to policies and lineages -/

/-- A table after some policies have been set. -/
def setPolicies (policies : List RetentionPolicy)
    (table : RetentionPolicyId → Option RetentionPolicy) :
    RetentionPolicyId → Option RetentionPolicy :=
  policies.foldl
    (fun table p id => if id = p.id then some { p with generation := ⟨1⟩ } else table id)
    table

/-- What is published in the store has no ancestors. -/
def WithoutLineage (store : Store W) : Prop :=
  ∀ id m, store.manifest id = some m → m.lineage = []

section Calls

variable {env : Env} {s s' : System W}

/-- A step sets no policy unless it is asked to. -/
theorem retention_step {R : W → W → Prop} {e : Event W} (h : Step env R s e s')
    (hreopen : e.reopens = false) (hpolicy : ∀ p thrown, e ≠ .call (.setRetentionPolicy p) thrown) :
    s'.store.retention.find = s.store.retention.find := by
  cases step_registers h with
  | same hregistry => exact funext hregistry.retention
  | created => rfl
  | policySet policy => exact absurd rfl (hpolicy policy none)
  | bootSet boot => rfl
  | published hpublished => rw [hpublished.enrolled.retention]
  | saved answers =>
      obtain ⟨files, hfiles⟩ := files_saved env answers s
      rw [hfiles]
  | reopened => simp [Event.reopens] at hreopen

/-- A call sets the policy it is given. -/
theorem retention_call {op : Op W} (hserves : op.serves) (s : System W) :
    (finalState (op.run env s)).store.retention.find =
      setPolicies op.policy.toList s.store.retention.find := by
  have hkept : (∀ options backends, op ≠ .reopen options backends) → op.policy = none →
      (finalState (op.run env s)).store.retention.find = s.store.retention.find := by
    intro hreopen hpolicy
    refine retention_step (Step.call (R := Anything) op) ?_ ?_
    · cases op with
      | reopen options backends => exact absurd rfl (hreopen options backends)
      | _ => rfl
    · rintro p thrown heq
      simp only [Event.call.injEq] at heq
      rw [heq.1] at hpolicy
      simp [Op.policy] at hpolicy
  cases op with
  | setRetentionPolicy policy =>
      funext id
      exact find_assign _ _ _ _
  | reopen options backends => exact hserves.elim
  | _ => exact hkept (by simp) rfl

/-- A step publishes no lineage unless it is given one. -/
theorem lineage_step {R : W → W → Prop} {e : Event W} (h : Step env R s e s')
    (hreopen : e.reopens = false) (hevent : ∀ d data, e.published = some (d, data) → d.lineage = [])
    (hs : WithoutLineage s.store) : WithoutLineage s'.store := by
  have hmanifests := step_manifests h hreopen
  unfold WithoutLineage
  generalize s'.store.manifest = manifest' at hmanifests ⊢
  cases hmanifests with
  | kept _ => exact hs
  | @entered d data m hfresh hlineage hdigest =>
      intro id m' hm'
      dsimp only at hm'
      by_cases hid : id = d.id
      · rw [if_pos hid] at hm'
        cases hm'
        rw [hlineage]
        exact hevent d data rfl
      · rw [if_neg hid] at hm'
        exact hs id m' hm'

theorem lineage_call {op : Op W} (hserves : op.serves) (hs : WithoutLineage s.store) :
    WithoutLineage (finalState (op.run env s)).store := by
  refine lineage_step (Step.call (R := Anything) op) ?_ ?_ hs
  · cases op with
    | reopen options backends => exact hserves.elim
    | _ => rfl
  · intro d data hpublished
    cases op with
    | publish d' data' =>
        cases hthrown : thrown ((Op.publish d' data').run env s) with
        | none =>
            simp only [hthrown, Event.published, Option.some.injEq, Prod.mk.injEq] at hpublished
            rw [← hpublished.1]
            exact hserves
        | some exn => simp [hthrown, Event.published] at hpublished
    | _ => simp [Event.published] at hpublished

/-- What the calls behind a request do to the table and the lineages. -/
theorem Called.retention {policies : List RetentionPolicy} (h : Called env policies s s') :
    s'.store.retention.find = setPolicies policies s.store.retention.find ∧
      (WithoutLineage s.store → WithoutLineage s'.store) := by
  obtain ⟨ops, rfl, hserves, rfl⟩ := h
  induction ops generalizing s with
  | nil => exact ⟨rfl, id⟩
  | cons op rest ih =>
      obtain ⟨htable, hlineage⟩ :=
        @ih (finalState (op.run env s)) fun op' hin => hserves op' (List.mem_cons_of_mem _ hin)
      have hop : op.serves := hserves op List.mem_cons_self
      refine ⟨?_, fun hs => hlineage (lineage_call hop hs)⟩
      have hsplit : (op :: rest).filterMap Op.policy =
          op.policy.toList ++ rest.filterMap Op.policy := by
        cases hpolicy : op.policy <;> simp [hpolicy]
      rw [hsplit]
      refine htable.trans ?_
      rw [retention_call hop, setPolicies, setPolicies, setPolicies, List.foldl_append]

end Calls

/-! ## The table over a run -/

/-- The policy that an event sets. -/
def CoordinatorEvent.policy : CoordinatorEvent → Option RetentionPolicy
  | .request r _ => r.policy
  | _ => none

/-- The last policy that was set. -/
def lastPolicy (events : List CoordinatorEvent) : Option RetentionPolicy :=
  (events.filterMap CoordinatorEvent.policy).getLast?.map fun p => { p with generation := ⟨1⟩ }

/-- A policy as the coordinator makes them. -/
theorem retain_policy_of_request {r : Request} {p : RetentionPolicy} (h : r.policy = some p) :
    p.id = ⟨1⟩ ∧ p.policyProtected = false ∧ p.ttl = 0 := by
  unfold Request.policy at h
  split at h
  · obtain ⟨req, _, rfl⟩ := Option.map_eq_some_iff.mp h
    exact ⟨rfl, rfl, rfl⟩
  · simp at h

theorem retain_policy_of_last {events : List CoordinatorEvent} {p : RetentionPolicy}
    (h : lastPolicy events = some p) : p.policyProtected = false ∧ p.ttl = 0 := by
  obtain ⟨p', hlast, rfl⟩ := Option.map_eq_some_iff.mp h
  obtain ⟨e, _, hpolicy⟩ := List.mem_filterMap.mp (List.mem_of_getLast? hlast)
  cases e with
  | request r accepted => exact (retain_policy_of_request hpolicy).2
  | _ => simp [CoordinatorEvent.policy] at hpolicy

/-- The policy after one more event. -/
theorem last_policy_append (events : List CoordinatorEvent) (e : CoordinatorEvent) :
    lastPolicy (events ++ [e]) =
      (e.policy.map fun p => { p with generation := ⟨1⟩ }).or (lastPolicy events) := by
  unfold lastPolicy
  rw [List.filterMap_append]
  cases hpolicy : e.policy <;> simp [hpolicy]

/-- The table holds the last policy under identity 1, and nothing else. -/
structure Retained (events : List CoordinatorEvent) (store : Store W) : Prop where
  table : ∀ id, store.retention.find id = if id = ⟨1⟩ then lastPolicy events else none
  lineage : WithoutLineage store

section Run

variable {env : Env} {path : Bytes} {events : List CoordinatorEvent} {c c' : Coordinator W}

/-- A request keeps the retained policy known. -/
theorem Retained.request (h : Retained events c.system.store) (r : Request) (accepted : Bool) :
    Retained (events ++ [.request r accepted]) (finalState (dispatch env r c)).system.store := by
  obtain ⟨htable, hlineage⟩ := (dispatch_calls env r c).retention
  refine ⟨fun id => ?_, hlineage h.lineage⟩
  rw [htable, last_policy_append]
  cases hpolicy : r.policy with
  | none => simpa [setPolicies, CoordinatorEvent.policy, hpolicy] using h.table id
  | some p =>
      have hid := (retain_policy_of_request hpolicy).1
      by_cases hone : id = ⟨1⟩
      · simp [setPolicies, CoordinatorEvent.policy, hpolicy, hid, hone]
      · simp [setPolicies, hid, hone, h.table id]

/-- So does every event but a restart. -/
theorem Retained.step {e : CoordinatorEvent} (h : Retained events c.system.store)
    (hlives : e ≠ .restart) (hstep : CoordinatorStep env path c e c') :
    Retained (events ++ [e]) c'.system.store := by
  cases hstep with
  | request r => exact h.request r _
  | restart => exact absurd rfl hlives
  | @outside e s hstep hevent =>
      have hreopen : e.reopens = false := by
        cases e with
        | call op thrown => exact absurd rfl (hevent op thrown)
        | _ => rfl
      have hpublished : e.published = none := by
        cases e with
        | call op thrown => exact absurd rfl (hevent op thrown)
        | _ => rfl
      refine ⟨fun id => ?_, lineage_step hstep hreopen (by simp [hpublished]) h.lineage⟩
      rw [retention_step hstep hreopen fun p thrown => hevent _ thrown, last_policy_append]
      exact h.table id

/-- In every run the store has the last policy. -/
theorem retained_run {chunkSize : UInt64} {backend : IBackend W} {w : W}
    (hrun : Run (CoordinatorStep env path) (.fresh path chunkSize backend w) events c)
    (hlife : .restart ∉ events) : Retained events c.system.store := by
  refine Run.invariant_on (A := fun e => e ≠ .restart)
    (fun events (c : Coordinator W) => Retained events c.system.store) ?_ ?_ hrun ?_
  · refine ⟨fun id => ?_, fun id m h => ?_⟩
    · simp [lastPolicy, Coordinator.fresh, System.fresh, Store.create]
    · simp [Store.manifest, Coordinator.fresh, System.fresh, Store.create] at h
  · intro events c e c' _ h hlives hstep
    exact h.step hlives hstep
  · rintro e hin rfl
    exact hlife hin

end Run

/-! ## What is applied -/

/-- The policy found is the last one, if it is for the family. -/
theorem find_policy_retained {events : List CoordinatorEvent} {store : Store W}
    (h : Retained events store) (family : CheckpointFamilyId) :
    findPolicy store family = (lastPolicy events).filter fun p => p.familyId = family := by
  have hvalues : ∀ p, p ∈ store.retention.values ↔ lastPolicy events = some p := by
    intro p
    rw [mem_values]
    refine ⟨fun ⟨id, hfind⟩ => ?_, fun hlast => ⟨⟨1⟩, by rw [h.table, if_pos rfl, hlast]⟩⟩
    rw [h.table] at hfind
    split at hfind
    · exact hfind
    · simp at hfind
  cases hfound : findPolicy store family with
  | some p =>
      have hlast := (hvalues p).mp (mem_values_of_find_policy hfound)
      have hfamily : p.familyId = family := by simpa using List.find?_some hfound
      rw [hlast, Option.filter_some, if_pos (by simpa using hfamily)]
  | none =>
      have hnone := List.find?_eq_none.mp hfound
      cases hlast : lastPolicy events with
      | none => rfl
      | some p =>
          have hother := hnone p ((hvalues p).mpr hlast)
          rw [Option.filter_some, if_neg hother]

/-- The policies of a coordinator enter the verdict on a checkpoint through `latest_n` alone. -/
theorem kept_at_of_latest_n {env : Env} {store store' : Store W} {rec : CheckpointRecord}
    (hplain : ∀ p, findPolicy store rec.descriptor.familyId = some p →
      p.policyProtected = false ∧ p.ttl = 0)
    (hplain' : ∀ p, findPolicy store' rec.descriptor.familyId = some p →
      p.policyProtected = false ∧ p.ttl = 0)
    (hfamilies : store'.families = store.families)
    (hcheckpoints : store'.checkpoints = store.checkpoints)
    (hlatest : latestN (findPolicy store' rec.descriptor.familyId) =
      latestN (findPolicy store rec.descriptor.familyId)) :
    keptAt env 0 store' rec = keptAt env 0 store rec := by
  have hgenerations : buildFamilyGenerations store' = buildFamilyGenerations store := by
    unfold buildFamilyGenerations generationLess
    rw [hfamilies, hcheckpoints]
  have hlatest' : keptAsLatest rec (findPolicy store' rec.descriptor.familyId)
      (buildFamilyGenerations store) =
      keptAsLatest rec (findPolicy store rec.descriptor.familyId)
        (buildFamilyGenerations store) := by
    unfold keptAsLatest
    rw [hlatest]
  have hany : ∀ policy : Option RetentionPolicy,
      (∀ p, policy = some p → p.policyProtected = false ∧ p.ttl = 0) →
      policy.any (fun p => p.policyProtected) = false ∧
        policy.all (fun p => 0 < p.ttl → (0 : TimePoint) < rec.descriptor.createdAt +
          p.ttl * (1000 * env.period.perMillisecond)) = true := by
    intro policy hpolicy
    cases policy with
    | none => exact ⟨rfl, rfl⟩
    | some p => simp [(hpolicy p rfl).1, (hpolicy p rfl).2]
  unfold keptAt
  dsimp only
  rw [(hany _ hplain).1, (hany _ hplain').1, (hany _ hplain).2, (hany _ hplain').2, hgenerations,
    hlatest']

/-- The protected checkpoints of a family are the same, and so are those that may be collected. -/
def SameRetention (env : Env) (family : CheckpointFamilyId) (s s' : System W) : Prop :=
  ∀ cid rec, s.store.checkpoints.find cid = some rec → rec.descriptor.familyId = family →
    (∀ marked marked' t t', computeProtectedSet env s = .ok marked t →
      computeProtectedSet env s' = .ok marked' t' → (cid ∈ marked' ↔ cid ∈ marked)) ∧
    ∀ eligible eligible' t t', gcEligibleCheckpoints env s = .ok eligible t →
      gcEligibleCheckpoints env s' = .ok eligible' t' → (cid ∈ eligible' ↔ cid ∈ eligible)

/-- Without lineages a checkpoint is protected only by itself. -/
theorem protected_iff_kept {store : Store W} (h : WithoutLineage store)
    {kept : CheckpointRecord → Bool} {cid : CheckpointId} {rec : CheckpointRecord}
    (hfind : store.checkpoints.find cid = some rec) :
    Protected store kept cid ↔ kept rec = true := by
  refine ⟨fun hprotected => ?_, .self hfind⟩
  cases hprotected with
  | self hfind' hkept =>
      rw [hfind] at hfind'
      cases hfind'
      exact hkept
  | @ancestor child _ rec' _ hchild hlineage _ =>
      have hnone := h child rec'.manifest (by simp [Store.manifest, hchild])
      simp [hnone] at hlineage

/-- Two states that differ in their policies treat a family alike if the applied `latest_n` is the
same. -/
theorem same_retention_of_latest_n {env : Env} {s s' : System W} {family : CheckpointFamilyId}
    {events events' : List CoordinatorEvent} (h : Retained events s.store)
    (h' : Retained events' s'.store) (hfamilies : s'.store.families = s.store.families)
    (hcheckpoints : s'.store.checkpoints = s.store.checkpoints)
    (hlatest : latestN (findPolicy s'.store family) = latestN (findPolicy s.store family)) :
    SameRetention env family s s' := by
  intro cid rec hfind hfamily
  have hplain : ∀ {events : List CoordinatorEvent} {store : Store W}, Retained events store →
      (∀ id p, store.retention.find id = some p → p.ttl = 0) ∧
        ∀ p, findPolicy store rec.descriptor.familyId = some p →
          p.policyProtected = false ∧ p.ttl = 0 := by
    intro events store hretained
    refine ⟨fun id p hp => ?_, fun p hp => ?_⟩
    · rw [hretained.table] at hp
      split at hp
      · exact (retain_policy_of_last hp).2
      · simp at hp
    · rw [find_policy_retained hretained] at hp
      exact retain_policy_of_last (Option.filter_eq_some_iff.mp hp).1
  have hfind' : s'.store.checkpoints.find cid = some rec := by rw [hcheckpoints, hfind]
  have hverdict := verdict_without_ttl env (hplain h).1
  have hverdict' := verdict_without_ttl env (hplain h').1
  have hkept : Protected s'.store (keptAt env 0 s'.store) cid ↔
      Protected s.store (keptAt env 0 s.store) cid := by
    rw [protected_iff_kept h.lineage hfind, protected_iff_kept h'.lineage hfind',
      kept_at_of_latest_n (hplain h).2 (hplain h').2 hfamilies hcheckpoints (hfamily ▸ hlatest)]
  refine ⟨fun marked marked' t t' hrun hrun' => ?_, fun eligible eligible' t t' hrun hrun' => ?_⟩
  · rw [mem_protected_set_iff hverdict hrun, mem_protected_set_iff hverdict' hrun', hkept]
  · rw [mem_gc_eligible_iff hverdict hrun, mem_gc_eligible_iff hverdict' hrun', hkept,
      hcheckpoints]

/-- A retention request changes the table of policies and nothing else of the store. -/
theorem dispatch_retain {env : Env} {r : Request} {p : RetentionPolicy}
    (hpolicy : r.policy = some p)
    (c : Coordinator W) :
    (finalState (dispatch env r c)).system.store = policyStored p c.system.store := by
  unfold Request.policy at hpolicy
  split at hpolicy
  · next hkind =>
      obtain ⟨req, hreq, rfl⟩ := Option.map_eq_some_iff.mp hpolicy
      cases hdecode : decode readRetain r.payload with
      | error e => simp [hdecode, Except.toOption] at hreq
      | ok req' =>
          simp only [hdecode, Except.toOption, Option.some.injEq] at hreq
          subst hreq
          unfold dispatch
          rw [hkind]
          show (finalState ((fromExcept (decode readRetain r.payload) >>= _) c)).system.store = _
          rw [hdecode]
          rfl
  · simp at hpolicy

section Requests

variable {env : Env} {path : Bytes} {chunkSize : UInt64} {backend : IBackend W} {w : W}

/-- After any requests, a family whose last retention request carried `latest_n` is kept by this
number exactly if no other family has made such a request since and the number is not 0, or the
number is 1, which applies to families without a policy. A request for another family changes
nothing for a family to which 1 applies. -/
theorem retention_requests_interfere {events : List CoordinatorEvent} {c : Coordinator W}
    (hrun : Run (CoordinatorStep env path) (.fresh path chunkSize backend w) events c)
    (hlife : .restart ∉ events) :
    (∀ before r accepted after p, events = before ++ .request r accepted :: after →
      r.policy = some p → (∀ e ∈ after, ∀ q, e.policy = some q → q.familyId ≠ p.familyId) →
      (latestN (findPolicy c.system.store p.familyId) = p.latestN ↔
        (∀ e ∈ after, e.policy = none) ∧ p.latestN ≠ 0 ∨ p.latestN = 1)) ∧
    ∀ r p family, r.policy = some p → p.familyId ≠ family →
      latestN (findPolicy c.system.store family) = 1 →
      SameRetention env family c.system (finalState (dispatch env r c)).system := by
  have hretained := retained_run hrun hlife
  constructor
  · rintro before r accepted after p rfl hpolicy hothers
    have hlast : lastPolicy (before ++ .request r accepted :: after) =
        ((after.filterMap CoordinatorEvent.policy).getLast?.or (some p)).map
          fun p => { p with generation := ⟨1⟩ } := by
      simp [lastPolicy, CoordinatorEvent.policy, hpolicy, List.getLast?_append, List.getLast?_cons]
    rw [find_policy_retained hretained, hlast]
    cases hq : (after.filterMap CoordinatorEvent.policy).getLast? with
    | none =>
        -- the request is the last one
        have hnone : ∀ e ∈ after, e.policy = none := by
          rw [List.getLast?_eq_none_iff, List.filterMap_eq_nil_iff] at hq
          exact hq
        have happlied : latestN (some { p with generation := ⟨1⟩ }) =
            if 0 < p.latestN then p.latestN else 1 := rfl
        rw [Option.none_or, Option.map_some, Option.filter_some, if_pos (by simp), happlied,
          and_iff_right hnone]
        by_cases hzero : p.latestN = 0
        · simp [hzero]
        · have hpos : 0 < p.latestN := UInt64.pos_iff_ne_zero.mpr hzero
          simp [hpos, hzero]
    | some q =>
        have hin := List.mem_filterMap.mp (List.mem_of_getLast? hq)
        obtain ⟨e, he, hpolicy'⟩ := hin
        have hother := hothers e he q hpolicy'
        have hpending : ¬ ∀ e ∈ after, e.policy = none := fun h => by
          rw [h e he] at hpolicy'
          cases hpolicy'
        rw [Option.some_or, Option.map_some, Option.filter_some, if_neg (by simpa using hother)]
        simp only [hpending, false_and, false_or, latestN]
        exact eq_comm
  · intro r p family hpolicy hother hlatest
    have hafter : Retained (events ++ [.request r true])
        (finalState (dispatch env r c)).system.store := hretained.request r true
    have hstore : (finalState (dispatch env r c)).system.store = policyStored p c.system.store :=
      dispatch_retain hpolicy c
    refine same_retention_of_latest_n hretained hafter (by rw [hstore]; rfl)
      (by rw [hstore]; rfl) ?_
    have hnone : findPolicy (finalState (dispatch env r c)).system.store family = none := by
      rw [find_policy_retained hafter, last_policy_append]
      simp [CoordinatorEvent.policy, hpolicy, hother]
    rw [hnone, hlatest]
    rfl

/-- A family is created. -/
def familyRequest : Request where
  kind := .createFamily
  payload := encodeU64 1

/-- Boot 5 publishes one byte. -/
def publishRequest (family : UInt64) (fill : UInt8) : Request where
  kind := .publish
  payload := encodePublish ⟨5, 1, 0⟩ family fill 1

/-- A policy is set. -/
def retainRequest (family latestN : UInt64) : Request where
  kind := .retain
  payload := encodeRetain family latestN

/-- Boot 5 makes two families and publishes twice in the first. -/
def twoInFirstFamily : List Request :=
  [registerRequest 5, familyRequest, familyRequest, publishRequest 1 0, publishRequest 1 1]

/-- A single request of the first family, which asks for its last three checkpoints. -/
theorem retention_requests_interfere_single :
    let requests := twoInFirstFamily ++ [retainRequest 1 3]
    let c := serveAll (sampleEnv tagHash) (sampleCoordinator tagHash) requests
    latestN (findPolicy c.system.store ⟨1⟩) = 3 := by
  intro requests c
  have hrun : Run (CoordinatorStep (sampleEnv tagHash) [115])
      (.fresh [115] 1 (memoryBackend tagHash) {})
      (serveEvents (sampleEnv tagHash) (sampleCoordinator tagHash) requests) c :=
    run_serve (sampleEnv tagHash) [115] (sampleCoordinator tagHash) requests
  have hpolicy : (retainRequest 1 3).policy = some (retainPolicy 1 3) := rfl
  exact ((retention_requests_interfere hrun (restart_not_mem_serve_events _ _ _)).1
    (serveEvents (sampleEnv tagHash) (sampleCoordinator tagHash) twoInFirstFamily)
    (retainRequest 1 3) true [] _ rfl hpolicy (by simp)).mpr (by decide)

/-- The first family asks for its last three checkpoints and has two of them. Then the second
family asks for two: the first one is applied 1, and its first checkpoint can be collected. -/
theorem retention_lost_to_other_family :
    let env := sampleEnv sha256Hash
    let c := serveAll env (sampleCoordinator sha256Hash) (twoInFirstFamily ++ [retainRequest 1 3])
    let c' := finalState (dispatch env (retainRequest 2 2) c)
    latestN (findPolicy c.system.store ⟨1⟩) = 3 ∧ latestN (findPolicy c'.system.store ⟨1⟩) = 1 ∧
      returned (gcEligibleCheckpoints env c.system) = some [] ∧
      (returned (gcEligibleCheckpoints env c'.system)).map (List.map fun id =>
        (c'.system.store.checkpoints.find id).map fun rec => rec.descriptor.familyId) =
        some [some ⟨1⟩] := by
  decide +kernel

end Requests

end CheckpointStore
