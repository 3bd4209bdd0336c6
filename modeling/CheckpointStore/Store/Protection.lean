import CheckpointStore.Foundation.Filling
import CheckpointStore.Foundation.Saturation
import CheckpointStore.Store.Retention

/-!
# The protected set

`Protected` says what the protected set is for: the checkpoints that are kept by themselves, and
their ancestors. `mem_protected_set_iff` shows that the loop of `compute_protected_set` computes
exactly this, whenever the verdict on each checkpoint does not depend on when the clock is read;
that is so if the clock stands still (`verdict_fixed_clock`) or no policy has a retention time
(`verdict_without_ttl`).
-/

namespace CheckpointStore

open Foundation Foundation.Procedure Foundation.UnorderedMap

variable {W : Type}

/-- Kept by itself, or an ancestor of a protected checkpoint. -/
inductive Protected (store : Store W) (kept : CheckpointRecord → Bool) : CheckpointId → Prop where
  | self {cid : CheckpointId} {rec : CheckpointRecord}
      (hfind : store.checkpoints.find cid = some rec) (hkept : kept rec = true) :
      Protected store kept cid
  | ancestor {cid anc : CheckpointId} {rec : CheckpointRecord} (h : Protected store kept cid)
      (hfind : store.checkpoints.find cid = some rec) (hlineage : anc ∈ rec.manifest.lineage)
      (hexists : store.checkpoints.contains anc = true) : Protected store kept anc

/-- What is protected exists. -/
theorem Protected.contains {store : Store W} {kept : CheckpointRecord → Bool} {cid : CheckpointId}
    (h : Protected store kept cid) : store.checkpoints.contains cid = true := by
  cases h with
  | self hfind _ => exact contains_iff.mpr ⟨_, hfind⟩
  | ancestor _ _ _ hexists => exact hexists

/-- Protected checkpoints stay protected as long as their records stay as they are. -/
theorem Protected.of_unchanged {store store' : Store W} {kept : CheckpointRecord → Bool}
    (hsame : ∀ cid, Protected store kept cid →
      store'.checkpoints.find cid = store.checkpoints.find cid) {cid : CheckpointId}
    (h : Protected store kept cid) : Protected store' kept cid := by
  induction h with
  | @self cid rec hfind hkept =>
      exact .self ((hsame cid (.self hfind hkept)).trans hfind) hkept
  | @ancestor cid anc rec h hfind hlineage hexists ih =>
      have hanc : Protected store kept anc := .ancestor h hfind hlineage hexists
      obtain ⟨rec', hrec'⟩ := contains_iff.mp hexists
      exact .ancestor ih ((hsame cid h).trans hfind) hlineage
        (contains_iff.mpr ⟨rec', (hsame anc hanc).trans hrec'⟩)

/-- Whenever it is asked, the check on a checkpoint of the store gives the same verdict. -/
def Verdict (env : Env) (store : Store W) (kept : CheckpointRecord → Bool) : Prop :=
  ∀ cid rec, store.checkpoints.find cid = some rec → ∀ s : System W, ∃ n,
    isProtected env rec (findPolicy store rec.descriptor.familyId) (buildFamilyGenerations store)
      false s = .ok (kept rec) { s with ticks := n }

/-! ## The loop without the clock -/

section Rounds

variable (store : Store W) (kept : CheckpointRecord → Bool)

/-- The first pass at one checkpoint. -/
def markEntry (state : Marking CheckpointId) (entry : CheckpointId × CheckpointRecord) :
    Marking CheckpointId :=
  if entry.1 ∈ state.1 then state
  else if kept entry.2 then (entry.1 :: state.1, true) else state

/-- The second pass at one ancestor. -/
def markAncestor (state : Marking CheckpointId) (anc : CheckpointId) : Marking CheckpointId :=
  if store.checkpoints.contains anc ∧ anc ∉ state.1 then (anc :: state.1, true) else state

/-- The second pass at one checkpoint. -/
def markLineage (state : Marking CheckpointId) (entry : CheckpointId × CheckpointRecord) :
    Marking CheckpointId :=
  if entry.1 ∈ state.1 then entry.2.manifest.lineage.foldl (markAncestor store) state else state

/-- Both passes. -/
def protectRound (state : Marking CheckpointId) : Marking CheckpointId :=
  store.checkpoints.entries.foldl (markLineage store)
    (store.checkpoints.entries.foldl (markEntry kept) state)

/-- Marking an entry grows the marking. -/
theorem grows_mark_entry (state : Marking CheckpointId)
    (entry : CheckpointId × CheckpointRecord) : Grows state (markEntry kept state entry) := by
  unfold markEntry
  split
  · exact .refl state
  · next hnew =>
      split
      · exact .enter hnew
      · exact .refl state

theorem grows_mark_ancestor (state : Marking CheckpointId) (anc : CheckpointId) :
    Grows state (markAncestor store state anc) := by
  unfold markAncestor
  split
  · next h => exact .enter h.2
  · exact .refl state

/-- Marking a lineage grows the marking. -/
theorem grows_mark_lineage (state : Marking CheckpointId)
    (entry : CheckpointId × CheckpointRecord) : Grows state (markLineage store state entry) := by
  unfold markLineage
  split
  · exact .foldl (grows_mark_ancestor store) _ _
  · exact .refl state

/-- A round grows the marking. -/
theorem grows_protect_round (state : Marking CheckpointId) :
    Grows state (protectRound store kept state) :=
  (Grows.foldl (grows_mark_entry kept) _ _).trans (.foldl (grows_mark_lineage store) _ _)

/-- Only protected checkpoints have been entered. -/
def AllProtected (marked : List CheckpointId) : Prop := ∀ cid ∈ marked, Protected store kept cid

end Rounds

section Sound

variable {store : Store W} {kept : CheckpointRecord → Bool}

/-- A loop marks protected checkpoints if every round does. -/
theorem foldl_all_protected {β : Type} {f : Marking CheckpointId → β → Marking CheckpointId}
    {xs : List β} (hf : ∀ state, ∀ x ∈ xs, AllProtected store kept state.1 →
      AllProtected store kept (f state x).1) {state : Marking CheckpointId}
    (h : AllProtected store kept state.1) : AllProtected store kept (xs.foldl f state).1 := by
  induction xs generalizing state with
  | nil => exact h
  | cons x rest ih =>
      exact ih (fun state y hy => hf state y (List.mem_cons_of_mem _ hy)) (hf state x (by simp) h)

theorem all_protected_cons {cid : CheckpointId} {marked : List CheckpointId}
    (h : Protected store kept cid) (hmarked : AllProtected store kept marked) :
    AllProtected store kept (cid :: marked) := by
  intro cid' hin
  rcases List.mem_cons.mp hin with rfl | hin
  · exact h
  · exact hmarked cid' hin

/-- A round marks protected checkpoints only. -/
theorem all_protected_round {marked : List CheckpointId} (h : AllProtected store kept marked) :
    AllProtected store kept (protectRound store kept (marked, false)).1 := by
  refine foldl_all_protected (fun state entry hentry hstate => ?_)
    (foldl_all_protected (fun state entry hentry hstate => ?_) h)
  · -- The lineage of a protected checkpoint.
    unfold markLineage
    split
    · next hin =>
        refine foldl_all_protected (fun state' anc hanc hstate' => ?_) hstate
        unfold markAncestor
        split
        · next hnew =>
            exact all_protected_cons (.ancestor (hstate _ hin) (find_eq_some_iff.mpr hentry) hanc
              hnew.1) hstate'
        · exact hstate'
    · exact hstate
  · unfold markEntry
    split
    · exact hstate
    · split
      · next hkept => exact all_protected_cons (.self (find_eq_some_iff.mpr hentry) hkept) hstate
      · exact hstate

/-- If the second pass enters nothing, the ancestors of what is in are in. -/
theorem closed_of_ancestry_unchanged {marked : List CheckpointId}
    (h : (ancestryPass store (marked, false)).2 = false) {cid : CheckpointId} (hin : cid ∈ marked)
    {rec : CheckpointRecord} (hfind : store.checkpoints.find cid = some rec) {anc : CheckpointId}
    (hanc : anc ∈ rec.manifest.lineage) (hexists : store.checkpoints.contains anc = true) :
    anc ∈ marked := by
  have hsame := Grows.foldl_unchanged (grows_mark_lineage store) (a := (marked, false)) h (cid, rec)
    (find_eq_some_iff.mp hfind)
  rw [markLineage, if_pos hin] at hsame
  have hone := Grows.foldl_unchanged (grows_mark_ancestor store) (a := (marked, false))
    (by rw [hsame]) anc hanc
  by_contra hnot
  simp [markAncestor, hnot, hexists] at hone

/-- A list that a round leaves alone has everything that is protected. -/
theorem mem_of_round_fixed {marked : List CheckpointId}
    (hfixed : protectRound store kept (marked, false) = (marked, false)) {cid : CheckpointId}
    (h : Protected store kept cid) : cid ∈ marked := by
  have hgrows := Grows.foldl (grows_mark_entry kept) (marked, false) store.checkpoints.entries
  have hunchanged : (protectRound store kept (marked, false)).2 = false := by rw [hfixed]
  -- Neither pass has changed anything.
  have hfirst : store.checkpoints.entries.foldl (markEntry kept) (marked, false) =
      (marked, false) := by
    refine hgrows.unchanged ?_
    have hlast := (Grows.foldl (grows_mark_lineage store)
      (store.checkpoints.entries.foldl (markEntry kept) (marked, false))
      store.checkpoints.entries).unchanged hunchanged
    exact hlast ▸ hunchanged
  have hentries := Grows.foldl_unchanged (grows_mark_entry kept) (a := (marked, false))
    (show (store.checkpoints.entries.foldl (markEntry kept) (marked, false)).2 = false by
      rw [hfirst])
  rw [protectRound, hfirst] at hunchanged
  induction h with
  | @self cid rec hfind hkept =>
      have hsame := hentries (cid, rec) (find_eq_some_iff.mp hfind)
      by_contra hnot
      simp [markEntry, hnot, hkept] at hsame
  | @ancestor cid anc rec _ hfind hlineage hexists ih =>
      exact closed_of_ancestry_unchanged hunchanged ih hfind hlineage hexists

/-- There are no more marks than checkpoints. -/
theorem length_le_of_all_protected {marked : List CheckpointId} (h : AllProtected store kept marked)
    (hnodup : marked.Nodup) : marked.length ≤ store.checkpoints.size :=
  length_le_size (fun cid hin => (h cid hin).contains) hnodup

/-- The loop without the clock computes the protected checkpoints. -/
theorem mem_saturate_iff (cid : CheckpointId) :
    cid ∈ saturate (protectRound store kept) (store.checkpoints.size + 1) [] ↔
      Protected store kept cid := by
  have hnone : AllProtected store kept [] := by simp [AllProtected]
  constructor
  · exact saturate_keeps (P := AllProtected store kept) (fun _ => all_protected_round) _ hnone cid
  · exact mem_of_round_fixed (saturate_fixed (P := AllProtected store kept)
      (grows_protect_round store kept) (fun _ => all_protected_round)
      (fun _ => length_le_of_all_protected) hnone List.nodup_nil (by simp))

end Sound

/-! ## The loop with the clock -/

section Loop

variable {env : Env} {store : Store W} {kept : CheckpointRecord → Bool}

/-- With a fixed verdict the pass is a fold. -/
theorem mark_pass_eq (h : Verdict env store kept)
    {entries : List (CheckpointId × CheckpointRecord)}
    (hentries : ∀ entry ∈ entries, store.checkpoints.find entry.1 = some entry.2)
    (state : Marking CheckpointId) (s : System W) :
    ∃ n, markPass env store (buildFamilyGenerations store) entries state.1 state.2 s =
      .ok (entries.foldl (markEntry kept) state) { s with ticks := n } := by
  induction entries generalizing state s with
  | nil => exact ⟨s.ticks, rfl⟩
  | cons entry rest ih =>
      obtain ⟨cid, rec⟩ := entry
      have hrest : ∀ entry ∈ rest, store.checkpoints.find entry.1 = some entry.2 :=
        fun entry hin => hentries entry (List.mem_cons_of_mem _ hin)
      rw [List.foldl_cons]
      unfold markPass markEntry
      by_cases hin : cid ∈ state.1
      · rw [if_pos hin, if_pos hin]
        exact ih hrest state s
      · obtain ⟨n, hverdict⟩ := h cid rec (hentries (cid, rec) (by simp)) s
        rw [if_neg hin, if_neg hin]
        show ∃ m, EStateM.bind _ _ s = _
        rw [EStateM.bind, hverdict]
        cases hkept : kept rec with
        | true => exact ih hrest (cid :: state.1, true) { s with ticks := n }
        | false => exact ih hrest state { s with ticks := n }

/-- With a fixed verdict the loop is a saturation. -/
theorem protect_loop_eq (h : Verdict env store kept) (bound : Nat) (marked : List CheckpointId)
    (s : System W) :
    ∃ n, protectLoop env store (buildFamilyGenerations store) bound marked s =
      .ok (saturate (protectRound store kept) bound marked) { s with ticks := n } := by
  induction bound generalizing marked s with
  | zero => exact ⟨s.ticks, rfl⟩
  | succ bound ih =>
      obtain ⟨n, hpass⟩ := mark_pass_eq h
        (fun entry (hin : entry ∈ store.checkpoints.entries) => find_eq_some_iff.mpr hin)
        (marked, false) s
      have hround : ancestryPass store
          (store.checkpoints.entries.foldl (markEntry kept) (marked, false)) =
          protectRound store kept (marked, false) := rfl
      unfold protectLoop saturate
      show ∃ m, EStateM.bind _ _ s = _
      rw [EStateM.bind, hpass]
      dsimp only
      rw [hround]
      by_cases hchanged : (protectRound store kept (marked, false)).2 = true
      · rw [if_pos hchanged, if_pos hchanged]
        exact ih _ _
      · rw [if_neg hchanged, if_neg hchanged]
        exact ⟨n, rfl⟩

/-- `compute_protected_set` computes the protected checkpoints. -/
theorem mem_protected_set_iff {s s' : System W} {marked : List CheckpointId}
    (h : Verdict env s.store kept) (hrun : computeProtectedSet env s = .ok marked s')
    (cid : CheckpointId) : cid ∈ marked ↔ Protected s.store kept cid := by
  obtain ⟨n, hloop⟩ := protect_loop_eq h (s.store.checkpoints.size + 1) [] s
  have hrun' : computeProtectedSet env s =
      .ok (saturate (protectRound s.store kept) (s.store.checkpoints.size + 1) [])
        { s with ticks := n } := hloop
  rw [hrun'] at hrun
  cases hrun
  exact mem_saturate_iff cid

/-- What is eligible, by its record. -/
theorem mem_eligible_outside {marked : List CheckpointId} {cid : CheckpointId} :
    cid ∈ eligibleOutside store marked ↔ ∃ rec, store.checkpoints.find cid = some rec ∧
      (rec.lifecycle = .committed ∨ rec.lifecycle = .retired) ∧ cid ∉ marked := by
  simp only [eligibleOutside, List.mem_map, List.mem_filter, decide_eq_true_eq]
  constructor
  · rintro ⟨⟨cid', rec⟩, ⟨hin, hlifecycle, hout⟩, rfl⟩
    exact ⟨rec, find_eq_some_iff.mpr hin, hlifecycle, hout⟩
  · rintro ⟨rec, hfind, hlifecycle, hout⟩
    exact ⟨(cid, rec), ⟨find_eq_some_iff.mp hfind, hlifecycle, hout⟩, rfl⟩

/-- `gc_eligible_checkpoints` computes the committed and retired checkpoints that are not
protected. -/
theorem mem_gc_eligible_iff {s s' : System W} {eligible : List CheckpointId}
    (h : Verdict env s.store kept) (hrun : gcEligibleCheckpoints env s = .ok eligible s')
    (cid : CheckpointId) : cid ∈ eligible ↔ ∃ rec, s.store.checkpoints.find cid = some rec ∧
      (rec.lifecycle = .committed ∨ rec.lifecycle = .retired) ∧ ¬ Protected s.store kept cid := by
  have hpost : Post (gcEligibleCheckpoints env) s
      (fun eligible _ => ∃ marked, eligible = eligibleOutside s.store marked ∧
        ∀ cid, cid ∈ marked ↔ Protected s.store kept cid) (fun _ _ => True) := by
    rw [gcEligibleCheckpoints, post_bind]
    refine (returns_compute_protected_set env).post fun marked t hmarked hclock => ?_
    obtain ⟨n, ht⟩ := hclock
    rw [post_bind, post_get, post_pure, ht]
    exact ⟨marked, rfl, mem_protected_set_iff h hmarked⟩
  obtain ⟨marked, rfl, hmarked⟩ := hpost.of_ok hrun
  rw [mem_eligible_outside]
  simp only [hmarked]

end Loop

/-! ## Verdicts -/

/-- What `is_protected` answers when the clock shows `present`. -/
def keptAt (env : Env) (present : TimePoint) (store : Store W) (rec : CheckpointRecord) : Bool :=
  let policy := findPolicy store rec.descriptor.familyId
  if rec.replicaSet.durabilityState = .underReplicated then true
  else if rec.descriptor.retention = .pinned ∨ rec.descriptor.retention = .restorePoint then true
  else if policy.any (fun p => p.policyProtected) then true
  else if rec.lifecycle = .retired ∨ rec.lifecycle = .gcEligible ∨ rec.lifecycle = .deleted then
    false
  else if rec.descriptor.retention = .keepLatestN then
    keptAsLatest rec policy (buildFamilyGenerations store)
  else if rec.descriptor.retention = .ttl then
    policy.all fun p => 0 < p.ttl →
      present < rec.descriptor.createdAt + p.ttl * (1000 * env.period.perMillisecond)
  else false

/-- The verdicts depend on the families, the policies and the descriptors of the store. -/
theorem kept_at_congr (env : Env) (present : TimePoint) {store store' : Store W}
    (hfamilies : store'.families = store.families) (hretention : store'.retention = store.retention)
    (hdescriptors : ∀ id, (store'.checkpoints.find id).map CheckpointRecord.descriptor =
      (store.checkpoints.find id).map CheckpointRecord.descriptor) :
    keptAt env present store' = keptAt env present store := by
  have hless : generationLess store' = generationLess store := by
    funext a b
    have ha := hdescriptors a
    have hb := hdescriptors b
    unfold generationLess
    cases ha₁ : store'.checkpoints.find a <;> cases ha₂ : store.checkpoints.find a <;>
      simp only [ha₁, ha₂, Option.map_none, Option.map_some, reduceCtorEq, Option.some.injEq] at ha
    · rfl
    · cases hb₁ : store'.checkpoints.find b <;> cases hb₂ : store.checkpoints.find b <;>
        simp only [hb₁, hb₂, Option.map_none, Option.map_some, reduceCtorEq,
          Option.some.injEq] at hb
      · rfl
      · simp only [ha, hb]
  have hgenerations : buildFamilyGenerations store' = buildFamilyGenerations store := by
    unfold buildFamilyGenerations
    rw [hfamilies, hless]
  have hpolicy : findPolicy store' = findPolicy store := by
    funext family
    unfold findPolicy
    rw [hretention]
  funext rec
  unfold keptAt
  rw [hgenerations, hpolicy]

/-- The checkpoints of a family, in the order of their generations. -/
def byGeneration (store : Store W) (f : FamilyRecord) : List CheckpointId :=
  f.checkpointIds.insertionSort fun a b => generationLess store b a = false

/-- The sorted lists are found under the families' identities. -/
theorem find_build_family_generations {store : Store W}
    (hfiled : Filed (fun f => f.id) store.families) (family : CheckpointFamilyId) :
    (buildFamilyGenerations store).find family.value =
      (store.families.find family).map (byGeneration store) := by
  have hnodup : (store.families.values.map fun f => f.id.value).Nodup := by
    have hids := values_keys_nodup hfiled
    have hvalues := hids.map (f := fun id : CheckpointFamilyId => id.value)
      fun _ _ => BasicId.ext_value
    rwa [List.map_map] at hvalues
  have hcases : (∀ f ∈ store.families.values,
      (buildFamilyGenerations store).find f.id.value = some (byGeneration store f)) ∧
      ∀ k, (∀ f ∈ store.families.values, f.id.value ≠ k) →
        (buildFamilyGenerations store).find k = none :=
    find_assign_all hnodup
  cases hfind : store.families.find family with
  | some f =>
      have hid : f.id = family := hfiled family f hfind
      have hlisted := hcases.1 f (mem_values.mpr ⟨family, hfind⟩)
      rwa [hid] at hlisted
  | none =>
      refine hcases.2 family.value fun f hf heq => ?_
      obtain ⟨id, hid⟩ := mem_values.mp hf
      have hfamily : id = family := (hfiled id f hid).symm.trans (BasicId.ext_value heq)
      rw [hfamily, hfind] at hid
      cases hid

/-- The check, as a verdict at the time it reads. -/
theorem is_protected_eq (env : Env) (store : Store W) (rec : CheckpointRecord) (s : System W) :
    ∃ n, isProtected env rec (findPolicy store rec.descriptor.familyId)
        (buildFamilyGenerations store) false s =
      .ok (keptAt env (env.clock s.ticks) store rec) { s with ticks := n } := by
  unfold isProtected keptAt
  simp only [Bool.false_eq_true, if_false]
  have hpure : ∀ b : Bool, ∃ n, (pure b : Proc (System W) Bool) s =
      .ok b { s with ticks := n } := fun b => ⟨s.ticks, rfl⟩
  by_cases h₁ : rec.replicaSet.durabilityState = .underReplicated
  · simpa only [if_pos h₁] using hpure true
  by_cases h₂ : rec.descriptor.retention = .pinned ∨ rec.descriptor.retention = .restorePoint
  · simpa only [if_neg h₁, if_pos h₂] using hpure true
  by_cases h₃ : (findPolicy store rec.descriptor.familyId).any (fun p => p.policyProtected) = true
  · simpa only [if_neg h₁, if_neg h₂, if_pos h₃] using hpure true
  by_cases h₄ : rec.lifecycle = .retired ∨ rec.lifecycle = .gcEligible ∨ rec.lifecycle = .deleted
  · simpa only [if_neg h₁, if_neg h₂, if_neg h₃, if_pos h₄] using hpure false
  by_cases h₅ : rec.descriptor.retention = .keepLatestN
  · simpa only [if_neg h₁, if_neg h₂, if_neg h₃, if_neg h₄, if_pos h₅] using hpure _
  by_cases h₆ : rec.descriptor.retention = .ttl
  · simp only [if_neg h₁, if_neg h₂, if_neg h₃, if_neg h₄, if_neg h₅, if_pos h₆]
    unfold keptByTtl
    cases hpolicy : findPolicy store rec.descriptor.familyId with
    | none => exact hpure true
    | some policy =>
        by_cases httl : 0 < policy.ttl
        · refine ⟨s.ticks + 1, ?_⟩
          simp only [Option.all_some, httl, true_imp_iff]
          rfl
        · simp only [Option.all_some, httl, false_imp_iff, decide_true]
          exact hpure true
  · simpa only [if_neg h₁, if_neg h₂, if_neg h₃, if_neg h₄, if_neg h₅, if_neg h₆] using hpure false

/-- With a clock that stands still every round has one verdict. -/
theorem verdict_fixed_clock {env : Env} {present : TimePoint} (h : ∀ n, env.clock n = present)
    (store : Store W) : Verdict env store (keptAt env present store) := by
  intro cid rec _ s
  rw [← h s.ticks]
  exact is_protected_eq env store rec s

theorem mem_values_of_find_policy {store : Store W} {family : CheckpointFamilyId}
    {policy : RetentionPolicy} (h : findPolicy store family = some policy) :
    policy ∈ store.retention.values := List.mem_of_find?_eq_some h

/-- The family has this policy and no other. -/
structure OnlyPolicy (store : Store W) (family : CheckpointFamilyId) (policy : RetentionPolicy) :
    Prop where
  known : ∃ id, store.retention.find id = some policy
  applies : policy.familyId = family
  only : ∀ id p, store.retention.find id = some p → p.familyId = family → p = policy

/-- The only policy of a family is the one found. -/
theorem OnlyPolicy.find_policy {store : Store W} {family : CheckpointFamilyId}
    {policy : RetentionPolicy} (h : OnlyPolicy store family policy) :
    findPolicy store family = some policy := by
  cases hfound : findPolicy store family with
  | none =>
      obtain ⟨id, hid⟩ := h.known
      have hnone := List.find?_eq_none.mp hfound policy (mem_values.mpr ⟨id, hid⟩)
      simp [h.applies] at hnone
  | some p =>
      obtain ⟨id, hid⟩ := mem_values.mp (mem_values_of_find_policy hfound)
      have hfamily : p.familyId = family := by simpa using List.find?_some hfound
      rw [h.only id p hid hfamily]

/-- The policy is the only one, if the table has no other entry. -/
theorem only_policy_of_entries {store : Store W} {id : RetentionPolicyId} {policy : RetentionPolicy}
    {family : CheckpointFamilyId} (hfind : store.retention.find id = some policy)
    (happlies : policy.familyId = family)
    (hentries : ∀ entry ∈ store.retention.entries, entry.1 = id) :
    OnlyPolicy store family policy := by
  refine ⟨⟨id, hfind⟩, happlies, fun id' p hp _ => ?_⟩
  have hid : id' = id := hentries (id', p) (find_eq_some_iff.mp hp)
  rw [hid, hfind, Option.some.injEq] at hp
  exact hp.symm

/-- Without a TTL the verdict does not depend on the clock. -/
theorem verdict_without_ttl (env : Env) {store : Store W}
    (h : ∀ id policy, store.retention.find id = some policy → policy.ttl = 0) :
    Verdict env store (keptAt env 0 store) := by
  intro cid rec _ s
  have hsame : keptAt env (env.clock s.ticks) store rec = keptAt env 0 store rec := by
    unfold keptAt
    cases hpolicy : findPolicy store rec.descriptor.familyId with
    | none => rfl
    | some policy =>
        obtain ⟨id, hfind⟩ := mem_values.mp (mem_values_of_find_policy hpolicy)
        simp [h id policy hfind]
  rw [← hsame]
  exact is_protected_eq env store rec s

end CheckpointStore
