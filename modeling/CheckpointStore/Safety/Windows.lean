import CheckpointStore.Foundation.LastOf
import CheckpointStore.Safety.Protections

/-!
# The latest checkpoints of a family

KEEP_LATEST_N keeps the last entries of the family's list, sorted by generation. Without a restart
the list has every checkpoint of the family in the order of the generations (`Enumerated`), so an
entry is kept if and only if fewer than N checkpoints of the family are newer
(`Enumerated.kept_as_latest_iff`). All checkpoints count there, whatever has become of them: the
window is exact (`latest_n_exact`), but retired and deleted checkpoints take places in it
(`window_survivors`). Without a policy it has a single place (`default_window_one`).
-/

namespace CheckpointStore

open Foundation Foundation.Procedure Foundation.UnorderedMap

variable {W : Type}

/-- The checkpoints of the same family with a higher generation. -/
def Store.newer (store : Store W) (rec : CheckpointRecord) : Set CheckpointId :=
  {c | ∃ r, store.checkpoints.find c = some r ∧
    r.descriptor.familyId = rec.descriptor.familyId ∧
    rec.descriptor.generation.value < r.descriptor.generation.value}

/-- Those of them that are committed. -/
def Store.newerCommitted (store : Store W) (rec : CheckpointRecord) : Set CheckpointId :=
  {c ∈ store.newer rec | store.lifecycle c = some .committed}

/-! ## Sizes -/

/-- The sizes that the containers can have: a table has fewer than `2 ^ 64` entries, and a vector of
identities takes fewer than `2 ^ 63` bytes. -/
structure Store.Sized (store : Store W) : Prop where
  families : store.families.size < 2 ^ 64
  members : ∀ id f, store.families.find id = some f → f.checkpointIds.length < 2 ^ 63

namespace Books

variable {b b' : Books} {n : Nat}

/-- Not every identity belongs to a family, and no family is too long. -/
structure Roomy (b : Books) : Prop where
  free : ∃ id, b.members id = none
  short : ∀ id ids, b.members id = some ids → ids.length < 2 ^ 63

/-- The first `n` identities belong to families. -/
def Given (n : Nat) (b : Books) : Prop :=
  ∀ id : CheckpointFamilyId, (id.value - 1).toNat < n → b.members id ≠ none

/-- Families stay, and their lists only grow. -/
theorem members_grow {e : Event W} (hstep : BookStep b e b') {id : CheckpointFamilyId}
    {ids : List CheckpointId} (hmembers : b.members id = some ids) :
    ∃ ids', b'.members id = some ids' ∧ ids.length ≤ ids'.length := by
  cases hstep with
  | kept => exact ⟨ids, hmembers, le_refl _⟩
  | created =>
      refine ⟨ids, ?_, le_refl _⟩
      by_cases hid : id = b.nextFamilyId
      · simp only [create, if_pos hid, hmembers, Option.getD_some]
      · simp only [create, if_neg hid, hmembers]
  | @enrolled d =>
      by_cases hid : id = d.familyId
      · exact ⟨ids ++ [d.id], by simp only [enroll, if_pos hid, hmembers, Option.map_some], by simp⟩
      · exact ⟨ids, by simp only [enroll, if_neg hid, hmembers], le_refl _⟩

/-- Where there is room after a step, there was room before it. -/
theorem Roomy.before {e : Event W} (h : b'.Roomy) (hstep : BookStep b e b') : b.Roomy := by
  obtain ⟨⟨id, hfree⟩, hshort⟩ := h
  refine ⟨⟨id, ?_⟩, fun id' ids hmembers => ?_⟩
  · by_contra hsome
    obtain ⟨ids, hids⟩ := Option.ne_none_iff_exists'.mp hsome
    obtain ⟨ids', hids', _⟩ := members_grow hstep hids
    rw [hfree] at hids'
    cases hids'
  · obtain ⟨ids', hids', hle⟩ := members_grow hstep hmembers
    have hlt := hshort id' ids' hids'
    omega

theorem Given.create (h : b.Given n) (hnumbered : b.Numbered n) (hn : n < 2 ^ 64) :
    b.create.Given (n + 1) := by
  intro id hid
  by_cases heq : id = b.nextFamilyId
  · simp [Books.create, heq]
  · -- The next identity is the one after the first `n`.
    have hne : (id.value - 1).toNat ≠ n := by
      intro hlast
      refine heq (BasicId.ext_value ?_)
      have hplace := UInt64.toNat_inj.mp (hlast.trans (hnumbered.place hn).symm)
      exact (UInt64.sub_left_inj 1).mp hplace
    simp only [Books.create, if_neg heq]
    exact h id (by omega)

theorem Given.enroll (h : b.Given n) (d : CheckpointDescriptor) : (b.enroll d).Given n := by
  intro id hid
  have hsome := h id hid
  simp only [Books.enroll]
  split
  · simpa using hsome
  · exact hsome

/-- With room, not all identities have been given out. -/
theorem Given.lt (h : b.Given n) (hroom : b.Roomy) : n < 2 ^ 64 := by
  obtain ⟨id, hfree⟩ := hroom.free
  by_contra hle
  have hlt := (id.value - 1).toNat_lt
  exact h id (by omega) hfree

end Books

theorem Store.Sized.roomy {store : Store W} (h : store.Sized) : store.books.Roomy := by
  constructor
  · by_contra hall
    -- Otherwise the table has an entry for every 64-bit number.
    have hcontains : ∀ id ∈ (List.range (2 ^ 64)).map fun i =>
        (⟨UInt64.ofNat i⟩ : CheckpointFamilyId), store.families.contains id = true := by
      intro id _
      rw [contains_iff]
      refine Option.ne_none_iff_exists'.mp fun hnone => hall ⟨id, ?_⟩
      rw [books_members, hnone]
      rfl
    have hnodup : ((List.range (2 ^ 64)).map fun i =>
        (⟨UInt64.ofNat i⟩ : CheckpointFamilyId)).Nodup := by
      refine List.Nodup.map_on (fun i hi j hj hij => ?_) List.nodup_range
      have hvalue : UInt64.ofNat i = UInt64.ofNat j := congrArg BasicId.value hij
      have hnat := congrArg UInt64.toNat hvalue
      rwa [UInt64.toNat_ofNat_of_lt' (List.mem_range.mp hi),
        UInt64.toNat_ofNat_of_lt' (List.mem_range.mp hj)] at hnat
    have hle := length_le_size hcontains hnodup
    rw [List.length_map, List.length_range] at hle
    have hlt := h.families
    omega
  · intro id ids hmembers
    obtain ⟨f, hfind, rfl⟩ := Option.map_eq_some_iff.mp hmembers
    exact h.members id f hfind

/-- Without a restart the books are sound, as long as there is room. -/
theorem sound_run_roomy {env : Env} {start : StoreOptions} {w : W} {s : System W}
    {registered : UnorderedMap StorageBackendId (IBackend W)} {events : List (Event W)}
    (hrun : Run (Step env Anything) (System.fresh start registered w) events s)
    (hreopen : ∀ e ∈ events, e.reopens = false) (hroom : s.store.books.Roomy) :
    s.store.books.Sound := by
  refine (Run.invariant_on (A := fun e => e.reopens = false)
    (fun _ s => s.store.books.Roomy → s.store.books.Sound ∧
      ∃ n, s.store.books.Numbered n ∧ s.store.books.Given n) ?_ ?_ hrun hreopen hroom).1
  · exact fun _ => ⟨sound_create start registered, 0, numbered_create start registered,
      fun id hid => by omega⟩
  · intro _ s e s' _ ih hreopen hstep hroom'
    have hbooks := step_books hstep hreopen
    have hroom := hroom'.before hbooks
    obtain ⟨hsound, n, hnumbered, hgiven⟩ := ih hroom
    have hlt := hgiven.lt hroom
    generalize s'.store.books = b' at hbooks ⊢
    cases hbooks with
    | kept => exact ⟨hsound, n, hnumbered, hgiven⟩
    | created =>
        exact ⟨hsound.create (hnumbered.fresh hlt), n + 1, hnumbered.create hlt,
          hgiven.create hnumbered hlt⟩
    | enrolled hfresh hnext =>
        exact ⟨hsound.enroll hfresh hnext, n, hnumbered.enroll _, hgiven.enroll _⟩

/-! ## Families in the order of their generations -/

/-- The list has every checkpoint of the family, in the order of the generations, and its length
can be the size of a vector. -/
structure Enumerated (store : Store W) (family : CheckpointFamilyId) (ids : List CheckpointId) :
    Prop where
  listed : (buildFamilyGenerations store).find family.value = some ids
  nodup : ids.Nodup
  short : ids.length < 2 ^ 63
  placed : ∀ i c, ids[i]? = some c → ∃ rec, store.checkpoints.find c = some rec ∧
    rec.descriptor.id = c ∧ rec.descriptor.familyId = family ∧
    rec.descriptor.generation.value.toNat = i + 1
  complete : ∀ c rec, store.checkpoints.find c = some rec → rec.descriptor.familyId = family →
    c ∈ ids

/-- With sound books the list is in order. -/
theorem enumerated_of_sound {store : Store W} (hsound : store.books.Sound)
    (hkeyed : WellKeyed store) {family : CheckpointFamilyId} {f : FamilyRecord}
    (hfind : store.families.find family = some f) (hshort : f.checkpointIds.length < 2 ^ 63) :
    Enumerated store family f.checkpointIds := by
  have hmembers : store.books.members family = some f.checkpointIds := by
    rw [books_members, hfind]
    rfl
  obtain ⟨hnodup, hgenerations, _⟩ := hsound.consecutive family _ hmembers
  have hplaced : ∀ i c, f.checkpointIds[i]? = some c → ∃ rec, store.checkpoints.find c = some rec ∧
      rec.descriptor.id = c ∧ rec.descriptor.familyId = family ∧
      rec.descriptor.generation.value.toNat = i + 1 := by
    intro i c hi
    obtain ⟨d, hd, hfamily, hgeneration⟩ := hgenerations i c hi
    obtain ⟨rec, hrec, rfl⟩ := Option.map_eq_some_iff.mp hd
    have hlt : i < f.checkpointIds.length := (List.getElem?_eq_some_iff.mp hi).1
    refine ⟨rec, hrec, hkeyed.checkpoints c rec hrec, hfamily, ?_⟩
    rw [hgeneration]
    exact UInt64.toNat_ofNat_of_lt' (show i + 1 < 2 ^ 64 by omega)
  refine ⟨?_, hnodup, hshort, hplaced, fun c rec hrec hfamily => ?_⟩
  · -- Sorting leaves the list as it is.
    rw [find_build_family_generations hkeyed.families, hfind, Option.map_some]
    refine congrArg some (List.Pairwise.insertionSort_eq ?_)
    rw [List.pairwise_iff_getElem]
    intro i j hi hj hij
    obtain ⟨ri, hri, _, _, hgi⟩ := hplaced i _ (List.getElem?_eq_getElem hi)
    obtain ⟨rj, hrj, _, _, hgj⟩ := hplaced j _ (List.getElem?_eq_getElem hj)
    simp only [generationLess, hri, hrj, decide_eq_false_iff_not, UInt64.lt_iff_toNat_lt]
    omega
  · have hd : store.books.descriptor c = some rec.descriptor := by
      rw [books_descriptor, hrec]
      rfl
    obtain ⟨ids, hids, hin⟩ := hsound.listed c _ hd
    rw [hfamily, hmembers, Option.some.injEq] at hids
    rwa [hids]

section Enumerated

variable {store : Store W} {family : CheckpointFamilyId} {ids : List CheckpointId}
  (h : Enumerated store family ids)

include h

/-- Every checkpoint of the family has a place in the list. -/
theorem Enumerated.place {c : CheckpointId} {rec : CheckpointRecord}
    (hfind : store.checkpoints.find c = some rec) (hfamily : rec.descriptor.familyId = family) :
    ∃ i, ids[i]? = some c ∧ rec.descriptor.id = c ∧
      rec.descriptor.generation.value.toNat = i + 1 := by
  obtain ⟨i, hi⟩ := List.mem_iff_getElem?.mp (h.complete c rec hfind hfamily)
  obtain ⟨rec', hrec', hid, _, hgeneration⟩ := h.placed i c hi
  rw [hfind, Option.some.injEq] at hrec'
  subst hrec'
  exact ⟨i, hi, hid, hgeneration⟩

/-- The newer checkpoints are the ones that follow in the list. -/
theorem Enumerated.newer_eq {rec : CheckpointRecord} {i : Nat}
    (hfamily : rec.descriptor.familyId = family)
    (hgeneration : rec.descriptor.generation.value.toNat = i + 1) :
    store.newer rec = {c | c ∈ ids.drop (i + 1)} := by
  ext c
  simp only [Store.newer, Set.mem_ofPred_eq, UInt64.lt_iff_toNat_lt, hgeneration]
  constructor
  · rintro ⟨r, hr, hsame, hlt⟩
    obtain ⟨j, hj, _, hgj⟩ := h.place hr (hsame.trans hfamily)
    refine List.mem_of_getElem? (i := j - (i + 1)) ?_
    rw [List.getElem?_drop, show i + 1 + (j - (i + 1)) = j by omega]
    exact hj
  · intro hin
    obtain ⟨k, hk⟩ := List.mem_iff_getElem?.mp hin
    rw [List.getElem?_drop] at hk
    obtain ⟨r, hr, _, hsame, hgr⟩ := h.placed _ c hk
    exact ⟨r, hr, hsame.trans hfamily.symm, by omega⟩

theorem Enumerated.ncard_newer {c : CheckpointId} {rec : CheckpointRecord} {i : Nat}
    (hi : ids[i]? = some c) (hfamily : rec.descriptor.familyId = family)
    (hgeneration : rec.descriptor.generation.value.toNat = i + 1) :
    (store.newer rec).ncard + (i + 1) = ids.length := by
  have hlt : i < ids.length := (List.getElem?_eq_some_iff.mp hi).1
  rw [h.newer_eq hfamily hgeneration,
    ncard_mem_list (h.nodup.sublist (List.drop_sublist _ _)), List.length_drop]
  omega

/-- KEEP_LATEST_N keeps a checkpoint if and only if fewer than N are newer. -/
theorem Enumerated.kept_as_latest_iff {c : CheckpointId} {rec : CheckpointRecord}
    (hfind : store.checkpoints.find c = some rec) (hfamily : rec.descriptor.familyId = family)
    (policy : Option RetentionPolicy) :
    keptAsLatest rec policy (buildFamilyGenerations store) = true ↔
      (store.newer rec).ncard < (latestN policy).toNat := by
  obtain ⟨i, hi, hid, hgeneration⟩ := h.place hfind hfamily
  obtain ⟨hlt, hat⟩ := List.getElem?_eq_some_iff.mp hi
  have hcount := h.ncard_newer hi hfamily hgeneration
  have hslot : ids.idxOf rec.descriptor.id = i := by
    rw [hid, ← hat]
    exact h.nodup.idxOf_getElem i hlt
  have hshort := h.short
  have hsize : (UInt64.ofNat ids.length).toNat = ids.length :=
    UInt64.toNat_ofNat_of_lt' (show ids.length < 2 ^ 64 by omega)
  have hplace : (UInt64.ofNat i).toNat = i :=
    UInt64.toNat_ofNat_of_lt' (show i < 2 ^ 64 by omega)
  have hn := (latestN policy).toNat_lt
  simp only [keptAsLatest, hfamily, h.listed, hslot, Bool.or_eq_true, decide_eq_true_eq,
    UInt64.le_iff_toNat_le, UInt64.toNat_add, hsize, hplace]
  -- The sum matters only if N is below the length of the list, and then it does not wrap.
  omega

/-- What decides about a committed checkpoint with KEEP_LATEST_N. -/
theorem Enumerated.kept_at_latest {env : Env} {c : CheckpointId} {rec : CheckpointRecord}
    (hfind : store.checkpoints.find c = some rec) (hfamily : rec.descriptor.familyId = family)
    (hcommitted : rec.lifecycle = .committed) (hretention : rec.descriptor.retention = .keepLatestN)
    (hreplicated : rec.replicaSet.durabilityState ≠ .underReplicated)
    (hplain : ¬ PolicyProtects store family) (present : TimePoint) :
    keptAt env present store rec = true ↔
      (store.newer rec).ncard < (latestN (findPolicy store family)).toNat := by
  rw [← any_policy_protected_iff] at hplain
  rw [← h.kept_as_latest_iff hfind hfamily, keptAt, hfamily, if_neg hreplicated, hretention,
    if_neg (by simp), if_neg hplain, hcommitted, if_neg (by simp), if_pos rfl]

/-- A checkpoint inside the window is kept at any time. -/
theorem Enumerated.kept_of_newer {env : Env} {c : CheckpointId} {rec : CheckpointRecord}
    (hfind : store.checkpoints.find c = some rec) (hfamily : rec.descriptor.familyId = family)
    (hcommitted : rec.lifecycle = .committed) (hretention : rec.descriptor.retention = .keepLatestN)
    (hnewer : (store.newer rec).ncard < (latestN (findPolicy store family)).toNat)
    (present : TimePoint) : keptAt env present store rec = true := by
  by_cases hreplicated : rec.replicaSet.durabilityState = .underReplicated
  · exact kept_of_hard (Or.inl hreplicated) present
  · by_cases hplain : PolicyProtects store family
    · exact kept_of_policy (hfamily ▸ hplain) present
    · exact (h.kept_at_latest hfind hfamily hcommitted hretention hreplicated hplain present).mpr
        hnewer

/-- Without other protections, what is kept in the end is what is inside the window. -/
theorem Enumerated.mem_saturated_iff {env : Env} {marked : List CheckpointId}
    (hmarked : Saturated env store marked) {c : CheckpointId} {rec : CheckpointRecord}
    (hfind : store.checkpoints.find c = some rec) (hfamily : rec.descriptor.familyId = family)
    (hcommitted : rec.lifecycle = .committed) (hretention : rec.descriptor.retention = .keepLatestN)
    (hreplicated : rec.replicaSet.durabilityState ≠ .underReplicated)
    (hplain : ¬ PolicyProtects store family)
    (hapart : ∀ c' r, store.checkpoints.find c' = some r → c ∉ r.manifest.lineage) :
    c ∈ marked ↔ (store.newer rec).ncard < (latestN (findPolicy store family)).toNat := by
  have hanswer : ∀ n, keptAt env (env.clock n) store rec =
      decide ((store.newer rec).ncard < (latestN (findPolicy store family)).toNat) := by
    intro n
    rw [Bool.eq_iff_iff, decide_eq_true_eq]
    exact h.kept_at_latest hfind hfamily hcommitted hretention hreplicated hplain _
  rw [hmarked.mem_iff hfind hapart hanswer, decide_eq_true_eq]

end Enumerated

/-! ## Families of a run -/

/-- Only checkpoints that ask for more than one replica are under-replicated. -/
def CheckpointRecord.ReplicatedAsAsked (rec : CheckpointRecord) : Prop :=
  rec.descriptor.requiredReplicaCount ≤ 1 → rec.replicaSet.durabilityState ≠ .underReplicated

theorem record_invariant_replicated (env : Env) :
    RecordInvariant W env (fun _ => True) CheckpointRecord.ReplicatedAsAsked where
  published d data p _ := by
    intro (hrequired : d.requiredReplicaCount ≤ 1)
    show (if d.requiredReplicaCount ≤ 1 then ReplicaDurabilityState.healthy
      else .underReplicated) ≠ _
    rw [if_pos hrequired]
    simp
  continued rec rec' h hrec hrequired hunder := by
    rw [h.descriptor] at hrequired
    exact hrec hrequired (h.durability hunder)
  moved _ _ hrec := hrec
  loaded _ hrec := hrec

section Runs

variable {env : Env} {start : StoreOptions} {w : W} {s : System W}
  {registered : UnorderedMap StorageBackendId (IBackend W)} {events : List (Event W)}
  {family : CheckpointFamilyId} {f : FamilyRecord}

/-- Without a restart the families are in order. -/
theorem enumerated_run (hrun : Run (Step env Anything) (System.fresh start registered w) events s)
    (hreopen : ∀ e ∈ events, e.reopens = false) (hsized : s.store.Sized)
    (hfamily : s.store.families.find family = some f) :
    Enumerated s.store family f.checkpointIds :=
  enumerated_of_sound (sound_run_roomy hrun hreopen hsized.roomy)
    (well_keyed_run (well_keyed_create start registered) hrun) hfamily
    (hsized.members family f hfamily)

theorem replicated_as_asked_run
    (hrun : Run (Step env Anything) (System.fresh start registered w) events s) :
    AllRecords CheckpointRecord.ReplicatedAsAsked s.store :=
  record_invariant_run (record_invariant_replicated env) hrun fun _ _ _ _ _ => trivial

theorem settled_run (hrun : Run (Step env Anything) (System.fresh start registered w) events s) :
    AllSettled s.store := (replicated_as_asked_run hrun).settled

/-- A checkpoint that asks for no second replica, has no policy that protects it and is in no
lineage is kept if and only if it is inside the window. -/
theorem mem_saturated_run_iff
    (hrun : Run (Step env Anything) (System.fresh start registered w) events s)
    {ids : List CheckpointId} (henumerated : Enumerated s.store family ids)
    {marked : List CheckpointId} (hmarked : Saturated env s.store marked) {c : CheckpointId}
    {rec : CheckpointRecord} (hfind : s.store.checkpoints.find c = some rec)
    (hfamily : rec.descriptor.familyId = family) (hcommitted : rec.lifecycle = .committed)
    (hretention : rec.descriptor.retention = .keepLatestN)
    (hrequired : rec.descriptor.requiredReplicaCount ≤ 1)
    (hplain : ¬ PolicyProtects s.store family)
    (hapart : ∀ c' r, s.store.checkpoints.find c' = some r → c ∉ r.manifest.lineage) :
    c ∈ marked ↔ (s.store.newer rec).ncard < (latestN (findPolicy s.store family)).toNat :=
  henumerated.mem_saturated_iff hmarked hfind hfamily hcommitted hretention
    ((replicated_as_asked_run hrun c rec hfind).2 hrequired) hplain hapart

/-! ## The window is exact -/

theorem OnlyPolicy.latest_n {store : Store W} {policy : RetentionPolicy}
    (h : OnlyPolicy store family policy) (hpositive : 0 < policy.latestN) :
    latestN (findPolicy store family) = policy.latestN := by
  rw [h.find_policy, latestN, if_pos hpositive]

/-- A checkpoint was retired. -/
def Event.retires : Event W → Bool
  | .call (.retire _) none => true
  | _ => false

theorem none_retired_run
    (hrun : Run (Step env Anything) (System.fresh start registered w) events s)
    (hreopen : ∀ e ∈ events, e.reopens = false) (hretire : ∀ e ∈ events, e.retires = false)
    {c : CheckpointId} {rec : CheckpointRecord} (hfind : s.store.checkpoints.find c = some rec) :
    rec.lifecycle = .committed ∨ rec.lifecycle = .deleted := by
  refine Run.invariant_on (A := fun e => e.reopens = false ∧ e.retires = false)
    (fun _ s => ∀ c rec, s.store.checkpoints.find c = some rec →
      rec.lifecycle = .committed ∨ rec.lifecycle = .deleted) ?_ ?_ hrun
    (fun e he => ⟨hreopen e he, hretire e he⟩) c rec hfind
  · intro c rec hfind
    simp [System.fresh, Store.create] at hfind
  · intro _ s e s' hprefix hs he hstep c rec' hfind'
    obtain ⟨hreopen, hretire⟩ := he
    have hrecord := step_record hstep hreopen (settled_run hprefix) c
    rw [hfind'] at hrecord
    generalize hfind : s.store.checkpoints.find c = before at hrecord
    cases hrecord with
    | continued h => exact h.lifecycle ▸ hs c _ hfind
    | published => exact .inl rfl
    | retired => cases hretire
    | deleted => exact .inr rfl

/-- In every state that is reached without a restart and without retiring: in a family with
KEEP_LATEST_N and a single policy, what is eligible are the committed checkpoints with at least
`latest_n` newer ones, and the sum that is compared with the size does not wrap. -/
theorem latest_n_exact (hrun : Run (Step env Anything) (System.fresh start registered w) events s)
    (hreopen : ∀ e ∈ events, e.reopens = false) (hretire : ∀ e ∈ events, e.retires = false)
    (hsized : s.store.Sized) (hfamily : s.store.families.find family = some f)
    (hmembers : ∀ c rec, s.store.checkpoints.find c = some rec →
      rec.descriptor.familyId = family → rec.descriptor.retention = .keepLatestN ∧
        rec.descriptor.requiredReplicaCount ≤ 1 ∧
        ∀ c' r, s.store.checkpoints.find c' = some r → c ∉ r.manifest.lineage)
    {policy : RetentionPolicy} (hpolicy : OnlyPolicy s.store family policy)
    (hpositive : 0 < policy.latestN) (hplain : policy.policyProtected = false) :
    (∃ eligible s', gcEligibleCheckpoints env s = .ok eligible s' ∧
      ∀ c rec, s.store.checkpoints.find c = some rec → rec.descriptor.familyId = family →
        (c ∈ eligible ↔ rec.lifecycle = .committed ∧
          policy.latestN.toNat ≤ (s.store.newer rec).ncard)) ∧
    ∀ ids, (buildFamilyGenerations s.store).find family.value = some ids →
      policy.latestN.toNat < ids.length → ∀ c ∈ ids,
        ids.idxOf c + policy.latestN.toNat < 2 ^ 64 := by
  have henumerated := enumerated_run hrun hreopen hsized hfamily
  constructor
  · obtain ⟨eligible, s', heligible, _⟩ := returns_gc_eligible_checkpoints env s
    obtain ⟨marked, hmarked, hmem⟩ := gc_eligible_saturated heligible
    refine ⟨eligible, s', heligible, fun c rec hfind hrec => ?_⟩
    obtain ⟨hretention, hrequired, hapart⟩ := hmembers c rec hfind hrec
    have hiff : c ∈ eligible ↔
        (rec.lifecycle = .committed ∨ rec.lifecycle = .retired) ∧ c ∉ marked := by
      rw [hmem]
      simp [hfind]
    rw [hiff]
    rcases none_retired_run hrun hreopen hretire hfind with hcommitted | hdeleted
    · rw [mem_saturated_run_iff hrun henumerated hmarked hfind hrec hcommitted hretention hrequired
        (hpolicy.not_protects hplain) hapart, hpolicy.latest_n hpositive, Nat.not_lt]
      simp [hcommitted]
    · simp [hdeleted]
  · intro ids hids hlt c hc
    have heq : ids = f.checkpointIds := Option.some.inj (hids.symm.trans henumerated.listed)
    have hslot := List.idxOf_lt_length_iff.mpr hc
    have hshort := hsized.members family f hfamily
    rw [← heq] at hshort
    omega

end Runs

theorem sized_of_entries {store : Store W} (hsize : store.families.size < 2 ^ 64)
    (hentries : ∀ entry ∈ store.families.entries, entry.2.checkpointIds.length < 2 ^ 63) :
    store.Sized :=
  ⟨hsize, fun id f hfind => hentries (id, f) (find_eq_some_iff.mp hfind)⟩

/-- Three checkpoints of a family. -/
def threeOps (later : List (Op MemoryWorld)) : List (Op MemoryWorld) :=
  [.createFamily, .publish (sampleDescriptor 1 1 0) [], .publish (sampleDescriptor 2 2 0) [],
    .publish (sampleDescriptor 3 3 0) []] ++ later

/-- The window of the family. -/
def setLatest (n : UInt64) : Op MemoryWorld :=
  .setRetentionPolicy { id := ⟨1⟩, familyId := ⟨1⟩, latestN := n }

/-- Two of three stay. -/
theorem latest_n_exact_two :
    ∃ eligible s', gcEligibleCheckpoints (sampleEnv tagHash)
        (sampleRun tagHash [] (threeOps [setLatest 2])) = .ok eligible s' ∧
      ∀ c rec, (sampleRun tagHash [] (threeOps [setLatest 2])).store.checkpoints.find c =
          some rec → rec.descriptor.familyId = ⟨1⟩ → (c ∈ eligible ↔ rec.lifecycle = .committed ∧
            2 ≤ ((sampleRun tagHash [] (threeOps [setLatest 2])).store.newer rec).ncard) := by
  have hrun := run_calls (sampleEnv tagHash) Anything (sampleSystem tagHash [])
    (threeOps [setLatest 2])
  have hevents : ∀ e ∈ callEvents (sampleEnv tagHash) (sampleSystem tagHash [])
      (threeOps [setLatest 2]), e.reopens = false ∧ e.retires = false := by
    intro e he
    obtain ⟨op, hop, outcome, rfl⟩ := op_of_mem_call_events he
    simp only [threeOps, setLatest, List.cons_append, List.nil_append, List.mem_cons,
      List.not_mem_nil, or_false] at hop
    rcases hop with rfl | rfl | rfl | rfl | rfl <;> exact ⟨rfl, rfl⟩
  rw [← sampleRun] at hrun
  generalize hs : sampleRun tagHash [] (threeOps [setLatest 2]) = s at hrun ⊢
  have hpolicies : s.store.retention.find ⟨1⟩ ≠ none ∧ ∀ entry ∈ s.store.retention.entries,
      entry.1 = ⟨1⟩ ∧ entry.2.familyId = ⟨1⟩ ∧ entry.2.latestN = 2 ∧
        entry.2.policyProtected = false := by
    rw [← hs]
    decide +kernel
  have hrecords : ∀ entry ∈ s.store.checkpoints.entries,
      entry.2.descriptor.retention = .keepLatestN ∧
        entry.2.descriptor.requiredReplicaCount ≤ 1 ∧ entry.2.manifest.lineage = [] := by
    rw [← hs]
    decide +kernel
  have hsizes : s.store.families.find ⟨1⟩ ≠ none ∧ s.store.families.size < 2 ^ 64 ∧
      ∀ entry ∈ s.store.families.entries, entry.2.checkpointIds.length < 2 ^ 63 := by
    rw [← hs]
    decide +kernel
  obtain ⟨policy, hpolicy⟩ := Option.ne_none_iff_exists'.mp hpolicies.1
  obtain ⟨f, hf⟩ := Option.ne_none_iff_exists'.mp hsizes.1
  obtain ⟨_, hfamily, hlatest, hplain⟩ :=
    hpolicies.2 (⟨1⟩, policy) (find_eq_some_iff.mp hpolicy)
  have hexact := (latest_n_exact hrun (fun e he => (hevents e he).1)
    (fun e he => (hevents e he).2) (sized_of_entries hsizes.2.1 hsizes.2.2) hf ?_
    (only_policy_of_entries hpolicy hfamily fun entry he => (hpolicies.2 entry he).1)
    (by rw [hlatest]; decide) hplain).1
  · rw [hlatest] at hexact
    exact hexact
  · intro c rec hfind _
    obtain ⟨hretention, hrequired, _⟩ := hrecords (c, rec) (find_eq_some_iff.mp hfind)
    refine ⟨hretention, hrequired, fun c' r hr => ?_⟩
    rw [(hrecords (c', r) (find_eq_some_iff.mp hr)).2.2]
    simp

/-! ## What is left in the window -/

/-- The committed checkpoints of a family. -/
def Store.committedOf (store : Store W) (family : CheckpointFamilyId) : Set CheckpointId :=
  {c | ∃ rec, store.checkpoints.find c = some rec ∧ rec.descriptor.familyId = family ∧
    rec.lifecycle = .committed}

/-- Whether a checkpoint is committed. -/
def Store.isCommitted (store : Store W) (c : CheckpointId) : Bool :=
  store.lifecycle c = some .committed

theorem is_committed_iff {store : Store W} {c : CheckpointId} {rec : CheckpointRecord}
    (hfind : store.checkpoints.find c = some rec) :
    store.isCommitted c = true ↔ rec.lifecycle = .committed := by
  simp [Store.isCommitted, Store.lifecycle, hfind]

section Enumerated

variable {store : Store W} {family : CheckpointFamilyId} {ids : List CheckpointId}
  (h : Enumerated store family ids)

include h

theorem Enumerated.ncard_newer_committed {rec : CheckpointRecord} {i : Nat}
    (hfamily : rec.descriptor.familyId = family)
    (hgeneration : rec.descriptor.generation.value.toNat = i + 1) :
    (store.newerCommitted rec).ncard = (ids.drop (i + 1)).countP store.isCommitted := by
  have hset : store.newerCommitted rec =
      {c | c ∈ (ids.drop (i + 1)).filter store.isCommitted} := by
    rw [Store.newerCommitted, h.newer_eq hfamily hgeneration]
    ext c
    simp [Store.isCommitted]
  rw [hset, ncard_mem_list ((h.nodup.sublist (List.drop_sublist _ _)).filter _),
    List.countP_eq_length_filter]

theorem Enumerated.committed_of_eq :
    store.committedOf family = {c | c ∈ ids.filter store.isCommitted} := by
  ext c
  simp only [Store.committedOf, Set.mem_ofPred_eq, List.mem_filter]
  constructor
  · rintro ⟨rec, hfind, hfamily, hcommitted⟩
    exact ⟨h.complete c rec hfind hfamily, (is_committed_iff hfind).mpr hcommitted⟩
  · rintro ⟨hin, hcommitted⟩
    obtain ⟨i, hi⟩ := List.mem_iff_getElem?.mp hin
    obtain ⟨rec, hfind, _, hfamily, _⟩ := h.placed i c hi
    exact ⟨rec, hfind, hfamily, (is_committed_iff hfind).mp hcommitted⟩

/-- A set that has the committed checkpoints with fewer than `n` newer committed ones has `n`
elements, or as many as are committed. -/
theorem Enumerated.min_le_ncard {n : Nat} {S : Set CheckpointId} (hfinite : S.Finite)
    (hS : ∀ c rec, store.checkpoints.find c = some rec → rec.descriptor.familyId = family →
      rec.lifecycle = .committed → (store.newerCommitted rec).ncard < n → c ∈ S) :
    min n (store.committedOf family).ncard ≤ S.ncard := by
  have hsubset : {c | c ∈ lastOf store.isCommitted n ids} ⊆ S := by
    intro c hc
    obtain ⟨hcommitted, i, hi, hcount⟩ := of_mem_last_of hc
    obtain ⟨rec, hfind, _, hfamily, hgeneration⟩ := h.placed i c hi
    refine hS c rec hfind hfamily ((is_committed_iff hfind).mp hcommitted) ?_
    rwa [h.ncard_newer_committed hfamily hgeneration]
  have hle := Set.ncard_le_ncard hsubset hfinite
  rw [ncard_mem_list (h.nodup.sublist (sublist_last_of _ _ _)), length_last_of] at hle
  rwa [h.committed_of_eq, ncard_mem_list (h.nodup.filter _), ← List.countP_eq_length_filter]

end Enumerated

/-- What a plan followed by a collection does to the records. -/
theorem collected_saturated (env : Env) (s : System W) :
    ∃ marked, Saturated env s.store marked ∧
      DeletedOutside marked s.store (callAll env s [.gcPlan, .gcRun]).store := by
  have hplanned : Planned env s (finalState ((Op.gcPlan).run env s)) := by
    rw [Op.run, final_state_map]
    exact post_final (P := fun _ (s' : System W) => Planned env s s')
      ((post_gc_plan env s).mono (fun _ _ h => h) (fun _ _ h => h.elim))
  show ∃ marked, _ ∧ DeletedOutside marked s.store (finalState ((Op.gcRun).run env
    (finalState ((Op.gcPlan).run env s)))).store
  generalize finalState ((Op.gcPlan).run env s) = s₁ at hplanned
  have hran : GcRan env s₁ (finalState ((Op.gcRun).run env s₁)) :=
    gc_run_ends (P := fun _ s' => GcRan env s₁ s') fun _ _ h => h
  cases hplanned with
  | intro epoch _ _ =>
      obtain ⟨marked, hmarked, hdeleted⟩ := hran.saturated
      refine ⟨marked, hmarked.of_same rfl fun present => ?_, hdeleted⟩
      exact kept_at_congr env present rfl rfl fun _ => rfl

section Survivors

variable {env : Env} {start : StoreOptions} {w : W} {s : System W}
  {registered : UnorderedMap StorageBackendId (IBackend W)} {events : List (Event W)}
  {family : CheckpointFamilyId} {f : FamilyRecord}

/-- In every state that is reached without a restart, in a family with KEEP_LATEST_N and a single
policy: a plan and a collection leave the committed checkpoints with fewer than `latest_n` newer
committed ones, and so `latest_n` of them or all, provided that fewer than `latest_n` checkpoints
are newer when the retired and deleted ones are counted as well. A committed checkpoint with
`latest_n` newer ones of any kind is deleted. -/
theorem window_survivors (hrun : Run (Step env Anything) (System.fresh start registered w) events s)
    (hreopen : ∀ e ∈ events, e.reopens = false) (hsized : s.store.Sized)
    (hfamily : s.store.families.find family = some f)
    (hmembers : ∀ c rec, s.store.checkpoints.find c = some rec →
      rec.descriptor.familyId = family → rec.descriptor.retention = .keepLatestN)
    {policy : RetentionPolicy} (hpolicy : OnlyPolicy s.store family policy)
    (hpositive : 0 < policy.latestN) :
    ((∀ c rec, s.store.checkpoints.find c = some rec → rec.descriptor.familyId = family →
        rec.lifecycle = .committed →
        (s.store.newerCommitted rec).ncard < policy.latestN.toNat →
        (s.store.newer rec).ncard < policy.latestN.toNat) →
      (∀ c rec, s.store.checkpoints.find c = some rec → rec.descriptor.familyId = family →
        rec.lifecycle = .committed →
        (s.store.newerCommitted rec).ncard < policy.latestN.toNat →
        (callAll env s [.gcPlan, .gcRun]).store.lifecycle c = some .committed) ∧
      min policy.latestN.toNat (s.store.committedOf family).ncard ≤
        ((callAll env s [.gcPlan, .gcRun]).store.committedOf family).ncard) ∧
    (policy.policyProtected = false →
      ∀ c rec, s.store.checkpoints.find c = some rec → rec.descriptor.familyId = family →
        rec.lifecycle = .committed → rec.descriptor.requiredReplicaCount ≤ 1 →
        (∀ c' r, s.store.checkpoints.find c' = some r → c ∉ r.manifest.lineage) →
        policy.latestN.toNat ≤ (s.store.newer rec).ncard →
        (callAll env s [.gcPlan, .gcRun]).store.lifecycle c = some .deleted) := by
  have henumerated := enumerated_run hrun hreopen hsized hfamily
  have hn := hpolicy.latest_n hpositive
  obtain ⟨marked, hmarked, hdeleted⟩ := collected_saturated env s
  generalize callAll env s [.gcPlan, .gcRun] = s' at hdeleted
  refine ⟨fun hwindow => ?_, fun hplain c rec hfind hrec hcommitted hrequired hapart hold => ?_⟩
  · have hstays : ∀ c rec, s.store.checkpoints.find c = some rec →
        rec.descriptor.familyId = family → rec.lifecycle = .committed →
        (s.store.newerCommitted rec).ncard < policy.latestN.toNat →
        s'.store.lifecycle c = some .committed := by
      intro c rec hfind hrec hcommitted hnewer
      have hin : c ∈ marked := hmarked.mem_of_kept hfind (henumerated.kept_of_newer hfind hrec
        hcommitted (hmembers c rec hfind hrec)
        (by rw [hn]; exact hwindow c rec hfind hrec hcommitted hnewer))
      rw [hdeleted.lifecycle hfind hcommitted, if_pos hin]
    refine ⟨hstays, henumerated.min_le_ncard ?_ fun c rec hfind hrec hcommitted hnewer => ?_⟩
    · -- What is left of the family is in its list.
      refine (List.finite_toSet f.checkpointIds).subset ?_
      rintro c ⟨rec', hfind', hrec', _⟩
      obtain ⟨rec, hfind, hsame⟩ := hdeleted.descriptor_eq hfind'
      exact henumerated.complete c rec hfind (hsame ▸ hrec')
    · have hcommitted' := hstays c rec hfind hrec hcommitted hnewer
      obtain ⟨rec', hfind', hlifecycle'⟩ := Option.map_eq_some_iff.mp hcommitted'
      obtain ⟨rec₀, hfind₀, hsame⟩ := hdeleted.descriptor_eq hfind'
      rw [hfind, Option.some.injEq] at hfind₀
      exact ⟨rec', hfind', by rw [hsame, ← hfind₀, hrec], hlifecycle'⟩
  · have hout : c ∉ marked := by
      rw [mem_saturated_run_iff hrun henumerated hmarked hfind hrec hcommitted
        (hmembers c rec hfind hrec) hrequired (hpolicy.not_protects hplain) hapart, hn]
      omega
    rw [hdeleted.lifecycle hfind hcommitted, if_neg hout]

end Survivors

/-- Where only older checkpoints than the committed ones are retired or deleted, the newer ones are
all committed. -/
theorem newer_committed_eq {store : Store W}
    (h : ∀ entry ∈ store.checkpoints.entries, ∀ entry' ∈ store.checkpoints.entries,
      entry.2.lifecycle = .committed →
      entry.2.descriptor.generation.value < entry'.2.descriptor.generation.value →
      entry'.2.lifecycle = .committed) {c : CheckpointId} {rec : CheckpointRecord}
    (hfind : store.checkpoints.find c = some rec) (hcommitted : rec.lifecycle = .committed) :
    store.newerCommitted rec = store.newer rec := by
  refine Set.Subset.antisymm (fun c' hc' => hc'.1) fun c' hc' => ⟨hc', ?_⟩
  obtain ⟨r, hr, _, hlt⟩ := hc'
  have hlifecycle : r.lifecycle = .committed :=
    h (c, rec) (find_eq_some_iff.mp hfind) (c', r) (find_eq_some_iff.mp hr) hcommitted hlt
  rw [Store.lifecycle, hr, Option.map_some, hlifecycle]

/-- The oldest is retired. -/
theorem window_survivors_oldest_retired :
    let s := sampleRun tagHash [] (threeOps [setLatest 2, .retire ⟨1⟩])
    min 2 (s.store.committedOf ⟨1⟩).ncard ≤
      ((callAll (sampleEnv tagHash) s [.gcPlan, .gcRun]).store.committedOf ⟨1⟩).ncard := by
  have hrun := run_calls (sampleEnv tagHash) Anything (sampleSystem tagHash [])
    (threeOps [setLatest 2, .retire ⟨1⟩])
  have hreopen : ∀ e ∈ callEvents (sampleEnv tagHash) (sampleSystem tagHash [])
      (threeOps [setLatest 2, .retire ⟨1⟩]), e.reopens = false := fun _ =>
    reopens_of_mem_call_events (by decide)
  rw [← sampleRun] at hrun
  generalize hs : sampleRun tagHash [] (threeOps [setLatest 2, .retire ⟨1⟩]) = s at hrun ⊢
  have hpolicies : s.store.retention.find ⟨1⟩ ≠ none ∧ ∀ entry ∈ s.store.retention.entries,
      entry.1 = ⟨1⟩ ∧ entry.2.familyId = ⟨1⟩ ∧ entry.2.latestN = 2 := by
    rw [← hs]
    decide +kernel
  have hrecords : (∀ entry ∈ s.store.checkpoints.entries,
      entry.2.descriptor.retention = .keepLatestN) ∧
      ∀ entry ∈ s.store.checkpoints.entries, ∀ entry' ∈ s.store.checkpoints.entries,
        entry.2.lifecycle = .committed →
        entry.2.descriptor.generation.value < entry'.2.descriptor.generation.value →
        entry'.2.lifecycle = .committed := by
    rw [← hs]
    decide +kernel
  have hsizes : s.store.families.find ⟨1⟩ ≠ none ∧ s.store.families.size < 2 ^ 64 ∧
      ∀ entry ∈ s.store.families.entries, entry.2.checkpointIds.length < 2 ^ 63 := by
    rw [← hs]
    decide +kernel
  obtain ⟨policy, hpolicy⟩ := Option.ne_none_iff_exists'.mp hpolicies.1
  obtain ⟨f, hf⟩ := Option.ne_none_iff_exists'.mp hsizes.1
  obtain ⟨_, hfamily, hlatest⟩ := hpolicies.2 (⟨1⟩, policy) (find_eq_some_iff.mp hpolicy)
  have hsurvive := ((window_survivors hrun hreopen (sized_of_entries hsizes.2.1 hsizes.2.2) hf
    (fun c rec hfind _ => hrecords.1 (c, rec) (find_eq_some_iff.mp hfind))
    (only_policy_of_entries hpolicy hfamily fun entry he => (hpolicies.2 entry he).1)
    (by rw [hlatest]; decide)).1 fun c rec hfind _ hcommitted hnewer => by
      rwa [newer_committed_eq hrecords.2 hfind hcommitted] at hnewer).2
  rwa [hlatest] at hsurvive

/-- When the newest of three checkpoints has been retired, a window of one is empty. -/
theorem retired_checkpoint_takes_place :
    let s := sampleRun sha256Hash [] (threeOps [setLatest 1, .retire ⟨3⟩])
    let s' := callAll (sampleEnv sha256Hash) s [.gcPlan, .gcRun]
    (∀ entry ∈ s.store.checkpoints.entries, entry.2.descriptor.familyId = ⟨1⟩ ∧
      entry.2.descriptor.retention = .keepLatestN ∧ entry.2.descriptor.lineage = [] ∧
      entry.2.descriptor.requiredReplicaCount ≤ 1) ∧
    s.store.retention.values.map (fun p => (p.familyId, p.latestN)) = [(⟨1⟩, 1)] ∧
    [⟨1⟩, ⟨2⟩, ⟨3⟩].map s.store.lifecycle = [some .committed, some .committed, some .retired] ∧
    [⟨1⟩, ⟨2⟩, ⟨3⟩].map s'.store.lifecycle = [some .deleted, some .deleted, some .deleted] := by
  decide +kernel

/-! ## The default window -/

/-- The descriptors in the books stay. -/
theorem Books.descriptor_kept {b b' : Books} {e : Event W} (hstep : BookStep b e b')
    {c : CheckpointId} {d : CheckpointDescriptor} (h : b.descriptor c = some d) :
    b'.descriptor c = some d := by
  cases hstep with
  | kept => exact h
  | created => exact h
  | @enrolled d' _ hfresh _ =>
      have hne : c ≠ d'.id := by
        rintro rfl
        rw [hfresh] at h
        cases h
      simp only [Books.enroll, if_neg hne, h]

theorem newer_mono {s s' : System W} {e : Event W}
    (hstep : BookStep s.store.books e s'.store.books) {rec rec' : CheckpointRecord}
    (hsame : rec'.descriptor = rec.descriptor) : s.store.newer rec ⊆ s'.store.newer rec' := by
  rintro c ⟨r, hr, hfamily, hlt⟩
  have hd : s.store.books.descriptor c = some r.descriptor := by
    rw [books_descriptor, hr]
    rfl
  obtain ⟨r', hr', hr'd⟩ := Option.map_eq_some_iff.mp (Books.descriptor_kept hstep hd)
  refine ⟨r', hr', ?_, ?_⟩
  · rw [hr'd, hsame]
    exact hfamily
  · rw [hr'd, hsame]
    exact hlt

theorem latest_n_positive (policy : Option RetentionPolicy) : 0 < (latestN policy).toNat := by
  cases policy with
  | none => decide
  | some policy =>
      simp only [latestN]
      by_cases hpositive : 0 < policy.latestN
      · rw [if_pos hpositive]
        exact UInt64.lt_iff_toNat_lt.mp hpositive
      · rw [if_neg hpositive]
        decide

section Default

variable {env : Env} {start : StoreOptions} {w : W} {s : System W}
  {registered : UnorderedMap StorageBackendId (IBackend W)} {events : List (Event W)}
  {family : CheckpointFamilyId} {f : FamilyRecord}

/-- The family of a checkpoint is in order. -/
theorem enumerated_of_record
    (hrun : Run (Step env Anything) (System.fresh start registered w) events s)
    (hreopen : ∀ e ∈ events, e.reopens = false) (hroom : s.store.books.Roomy) {c : CheckpointId}
    {rec : CheckpointRecord} (hfind : s.store.checkpoints.find c = some rec) :
    ∃ ids, Enumerated s.store rec.descriptor.familyId ids := by
  have hsound := sound_run_roomy hrun hreopen hroom
  have hd : s.store.books.descriptor c = some rec.descriptor := by
    rw [books_descriptor, hfind]
    rfl
  obtain ⟨ids, hids, _⟩ := hsound.listed c _ hd
  have hshort := hroom.short _ ids hids
  obtain ⟨f, hf, rfl⟩ := Option.map_eq_some_iff.mp hids
  exact ⟨_, enumerated_of_sound hsound
    (well_keyed_run (well_keyed_create start registered) hrun) hf hshort⟩

/-- The newest checkpoint of a family stays committed until it is retired, if its retention is
KEEP_LATEST_N: every window has a place for it. -/
theorem newest_committed_run
    (hrun : Run (Step env Anything) (System.fresh start registered w) events s)
    (hreopen : ∀ e ∈ events, e.reopens = false) (hroom : s.store.books.Roomy) {c : CheckpointId}
    {rec : CheckpointRecord} (hfind : s.store.checkpoints.find c = some rec)
    (hretention : rec.descriptor.retention = .keepLatestN) (hnewest : s.store.newer rec = ∅)
    (hretired : .call (.retire c) none ∉ events) : rec.lifecycle = .committed := by
  induction hrun generalizing rec with
  | start => simp [System.fresh, Store.create] at hfind
  | @extend events s s' e hprefix hstep ih =>
      have hreopen' : ∀ e ∈ events, e.reopens = false := fun e he => hreopen e (by simp [he])
      have hbooks := step_books hstep (hreopen e (by simp))
      have hrecord := step_record hstep (hreopen e (by simp)) (settled_run hprefix) c
      have hbefore : ∀ rec₀, s.store.checkpoints.find c = some rec₀ →
          rec.descriptor = rec₀.descriptor → rec₀.lifecycle = .committed := by
        intro rec₀ hfind₀ hsame
        refine ih hreopen' (hroom.before hbooks) hfind₀ (hsame ▸ hretention) ?_ (by simp_all)
        exact Set.subset_empty_iff.mp (hnewest ▸ newer_mono hbooks hsame)
      rw [hfind] at hrecord
      generalize hfind₀ : s.store.checkpoints.find c = before at hrecord
      cases hrecord with
      | continued h => exact h.lifecycle.trans (hbefore _ hfind₀ h.descriptor)
      | published => rfl
      | retired => exact absurd (by simp) hretired
      | @deleted rec₀ _ marked hmarked hout _ =>
          have hcommitted := hbefore rec₀ hfind₀ rfl
          obtain ⟨ids, hids⟩ :=
            enumerated_of_record hprefix hreopen' (hroom.before hbooks) hfind₀
          have hnone : s.store.newer rec₀ = ∅ :=
            Set.subset_empty_iff.mp (hnewest ▸ newer_mono hbooks rfl)
          refine absurd (hmarked.mem_of_kept hfind₀ (hids.kept_of_newer hfind₀ rfl hcommitted
            hretention ?_)) hout
          rw [hnone, Set.ncard_empty]
          exact latest_n_positive _

/-- The newest of the committed checkpoints is the newest of all, if none has been retired. -/
theorem newer_empty_of_committed
    (hrun : Run (Step env Anything) (System.fresh start registered w) events s)
    (hreopen : ∀ e ∈ events, e.reopens = false) (hroom : s.store.books.Roomy)
    (hmembers : ∀ c rec, s.store.checkpoints.find c = some rec →
      rec.descriptor.familyId = family → rec.descriptor.retention = .keepLatestN ∧
        .call (.retire c) none ∉ events) {c : CheckpointId} {rec : CheckpointRecord}
    (hfind : s.store.checkpoints.find c = some rec) (hrec : rec.descriptor.familyId = family)
    (hnewest : s.store.newerCommitted rec = ∅) : s.store.newer rec = ∅ := by
  obtain ⟨ids, henumerated⟩ := enumerated_of_record hrun hreopen hroom hfind
  rw [hrec] at henumerated
  obtain ⟨i, hi, _, hgeneration⟩ := henumerated.place hfind hrec
  have hlt : i < ids.length := (List.getElem?_eq_some_iff.mp hi).1
  by_cases hlast : i + 1 = ids.length
  · rw [henumerated.newer_eq hrec hgeneration, hlast, List.drop_length]
    simp
  · -- The last one in the list is newer, and committed.
    obtain ⟨r, hr, _, hrfamily, hrgeneration⟩ := henumerated.placed (ids.length - 1) _
      (List.getElem?_eq_getElem (by omega))
    obtain ⟨hretention, hretired⟩ := hmembers _ r hr hrfamily
    have hnone : s.store.newer r = ∅ := by
      rw [henumerated.newer_eq hrfamily hrgeneration, show ids.length - 1 + 1 = ids.length by omega,
        List.drop_length]
      simp
    have hcommitted := newest_committed_run hrun hreopen hroom hr hretention hnone hretired
    refine absurd hnewest
      (Set.nonempty_iff_ne_empty.mp ⟨_, ⟨r, hr, hrfamily.trans hrec.symm, ?_⟩, ?_⟩)
    · rw [UInt64.lt_iff_toNat_lt]
      omega
    · rw [Store.lifecycle, hr, Option.map_some, hcommitted]

/-- So it is kept at any time. -/
theorem newest_kept_run
    (hrun : Run (Step env Anything) (System.fresh start registered w) events s)
    (hreopen : ∀ e ∈ events, e.reopens = false) (hroom : s.store.books.Roomy)
    (hmembers : ∀ c rec, s.store.checkpoints.find c = some rec →
      rec.descriptor.familyId = family → rec.descriptor.retention = .keepLatestN ∧
        .call (.retire c) none ∉ events) {c : CheckpointId} {rec : CheckpointRecord}
    (hfind : s.store.checkpoints.find c = some rec) (hrec : rec.descriptor.familyId = family)
    (hcommitted : rec.lifecycle = .committed) (hnewest : (s.store.newerCommitted rec).ncard < 1)
    (present : TimePoint) : keptAt env present s.store rec = true := by
  obtain ⟨ids, henumerated⟩ := enumerated_of_record hrun hreopen hroom hfind
  have hfinite : (s.store.newerCommitted rec).Finite := by
    obtain ⟨i, _, _, hgeneration⟩ := henumerated.place hfind rfl
    refine (List.finite_toSet (ids.drop (i + 1))).subset fun c' hc' => ?_
    rw [← henumerated.newer_eq rfl hgeneration]
    exact hc'.1
  have hempty : s.store.newerCommitted rec = ∅ :=
    (Set.ncard_eq_zero hfinite).mp (Nat.lt_one_iff.mp hnewest)
  have hnone := newer_empty_of_committed hrun hreopen hroom hmembers hfind hrec hempty
  refine henumerated.kept_of_newer hfind rfl hcommitted (hmembers c rec hfind hrec).1 ?_ present
  rw [hnone, Set.ncard_empty]
  exact latest_n_positive _

/-- In every state that is reached without a restart, in a family without a policy that has
KEEP_LATEST_N and of which nothing was retired: with a configured default of 1, the newest committed
checkpoint is not eligible and a collection leaves it. Whatever the configured default, a committed
checkpoint that is not the newest of its family is eligible and deleted by a collection, if it asks
for no second replica and is in no lineage. -/
theorem default_window_one
    (hrun : Run (Step env Anything) (System.fresh start registered w) events s)
    (hreopen : ∀ e ∈ events, e.reopens = false) (hsized : s.store.Sized)
    (hmembers : ∀ c rec, s.store.checkpoints.find c = some rec →
      rec.descriptor.familyId = family → rec.descriptor.retention = .keepLatestN ∧
        .call (.retire c) none ∉ events)
    (hnone : ∀ id p, s.store.retention.find id = some p → p.familyId ≠ family) :
    (s.store.options.defaultRetentionLatestN = 1 →
      ∀ c rec, s.store.checkpoints.find c = some rec → rec.descriptor.familyId = family →
        rec.lifecycle = .committed → (s.store.newerCommitted rec).ncard <
          s.store.options.defaultRetentionLatestN.toNat →
        (∀ eligible s', gcEligibleCheckpoints env s = .ok eligible s' → c ∉ eligible) ∧
          (finalState (gcRun env s)).store.lifecycle c = some .committed) ∧
    ∀ c rec, s.store.checkpoints.find c = some rec → rec.descriptor.familyId = family →
      rec.lifecycle = .committed → rec.descriptor.requiredReplicaCount ≤ 1 →
      (∀ c' r, s.store.checkpoints.find c' = some r → c ∉ r.manifest.lineage) →
      0 < (s.store.newer rec).ncard →
      (∀ eligible s', gcEligibleCheckpoints env s = .ok eligible s' → c ∈ eligible) ∧
        (finalState (gcRun env s)).store.lifecycle c = some .deleted := by
  have hroom := hsized.roomy
  have hpolicy : findPolicy s.store family = none := by
    refine List.find?_eq_none.mpr fun p hp => ?_
    obtain ⟨id, hid⟩ := mem_values.mp hp
    simpa using hnone id p hid
  have hran : GcRan env s (finalState (gcRun env s)) :=
    post_final (P := fun _ (s' : System W) => GcRan env s s') (post_gc_run env s)
  obtain ⟨swept, hswept, hdeleted⟩ := hran.saturated
  constructor
  · intro hdefault c rec hfind hrec hcommitted hnewer
    rw [hdefault] at hnewer
    have hkept := newest_kept_run hrun hreopen hroom hmembers hfind hrec hcommitted hnewer
    refine ⟨fun eligible s' heligible hin => ?_, ?_⟩
    · obtain ⟨marked, hmarked, hmem⟩ := gc_eligible_saturated heligible
      obtain ⟨_, _, _, hout⟩ := (hmem c).mp hin
      exact hout (hmarked.mem_of_kept hfind hkept)
    · rw [hdeleted.lifecycle hfind hcommitted, if_pos (hswept.mem_of_kept hfind hkept)]
  · intro c rec hfind hrec hcommitted hrequired hapart hnewer
    obtain ⟨ids, henumerated⟩ := enumerated_of_record hrun hreopen hroom hfind
    have hprotects : ¬ PolicyProtects s.store rec.descriptor.familyId := by
      rw [← any_policy_protected_iff, hrec, hpolicy]
      simp
    have hout : ∀ marked, Saturated env s.store marked → c ∉ marked := by
      intro marked hmarked
      rw [mem_saturated_run_iff hrun henumerated hmarked hfind rfl hcommitted
        (hmembers c rec hfind hrec).1 hrequired hprotects hapart, hrec, hpolicy]
      show ¬ _ < 1
      omega
    refine ⟨fun eligible s' heligible => ?_, ?_⟩
    · obtain ⟨marked, hmarked, hmem⟩ := gc_eligible_saturated heligible
      exact (hmem c).mpr ⟨rec, hfind, .inl hcommitted, hout marked hmarked⟩
    · rw [hdeleted.lifecycle hfind hcommitted, if_neg (hout swept hswept)]

end Default

/-- Three checkpoints in a store with this configured default. -/
def defaultRun (H : StreamHash) (d : UInt64) : System MemoryWorld :=
  callAll (sampleEnv H) (.fresh { chunkSize := 1, defaultRetentionLatestN := d }
    (UnorderedMap.assign ⟨1⟩ (memoryBackend H) ∅) {}) (threeOps [])

/-- The newest of three stays. -/
theorem default_window_one_three :
    ∃ eligible s', gcEligibleCheckpoints (sampleEnv tagHash) (defaultRun tagHash 1) =
      .ok eligible s' ∧ ⟨3⟩ ∉ eligible := by
  have hrun := run_calls (sampleEnv tagHash) Anything
    (.fresh { chunkSize := 1, defaultRetentionLatestN := 1 }
      (UnorderedMap.assign ⟨1⟩ (memoryBackend tagHash) ∅) {}) (threeOps [])
  have hevents : ∀ e ∈ callEvents (sampleEnv tagHash) (.fresh
      { chunkSize := 1, defaultRetentionLatestN := 1 }
      (UnorderedMap.assign ⟨1⟩ (memoryBackend tagHash) ∅) {}) (threeOps []),
      e.reopens = false ∧ e.retires = false := by
    intro e he
    obtain ⟨op, hop, outcome, rfl⟩ := op_of_mem_call_events he
    simp only [threeOps, List.append_nil, List.mem_cons, List.not_mem_nil, or_false] at hop
    rcases hop with rfl | rfl | rfl | rfl <;> exact ⟨rfl, rfl⟩
  rw [← defaultRun] at hrun
  generalize hs : defaultRun tagHash 1 = s at hrun ⊢
  have hsizes : s.store.families.size < 2 ^ 64 ∧
      (∀ entry ∈ s.store.families.entries, entry.2.checkpointIds.length < 2 ^ 63) ∧
      s.store.retention.values.length = 0 ∧ s.store.options.defaultRetentionLatestN = 1 := by
    rw [← hs]
    decide +kernel
  have hrecords : (∀ entry ∈ s.store.checkpoints.entries,
      entry.2.descriptor.retention = .keepLatestN ∧ entry.2.descriptor.generation.value ≤ 3) ∧
      (s.store.checkpoints.find ⟨3⟩).map (fun rec => (rec.descriptor.familyId, rec.lifecycle,
        rec.descriptor.generation.value)) = some (⟨1⟩, .committed, 3) := by
    rw [← hs]
    decide +kernel
  obtain ⟨rec, hfind, hrec⟩ := Option.map_eq_some_iff.mp hrecords.2
  simp only [Prod.mk.injEq] at hrec
  obtain ⟨hfamily, hcommitted, hgeneration⟩ := hrec
  have hnewest : s.store.newerCommitted rec = ∅ := by
    refine Set.eq_empty_of_forall_notMem ?_
    rintro c ⟨⟨r, hr, _, hlt⟩, _⟩
    have hle := (hrecords.1 (c, r) (find_eq_some_iff.mp hr)).2
    rw [hgeneration] at hlt
    exact absurd hlt (UInt64.not_lt.mpr hle)
  have hdefault : ∀ c rec, s.store.checkpoints.find c = some rec →
      rec.descriptor.retention = .keepLatestN := fun c rec hfind =>
    (hrecords.1 (c, rec) (find_eq_some_iff.mp hfind)).1
  have hone := default_window_one hrun (fun e he => (hevents e he).1)
    (sized_of_entries hsizes.1 hsizes.2.1)
    (fun c rec hfind (_ : _ = (⟨1⟩ : CheckpointFamilyId)) => ⟨hdefault c rec hfind, fun hin =>
      absurd (hevents _ hin).2 (by simp [Event.retires])⟩)
    (fun id p hp _ => by
      have hpositive := List.length_pos_of_mem (mem_values.mpr ⟨id, hp⟩)
      omega)
  have hkept := (hone.1 hsizes.2.2.2 ⟨3⟩ rec hfind hfamily hcommitted
    (by rw [hnewest, hsizes.2.2.2, Set.ncard_empty]; decide)).1
  obtain ⟨eligible, s', heligible, _⟩ := returns_gc_eligible_checkpoints (sampleEnv tagHash) s
  exact ⟨eligible, s', heligible, hkept eligible s' heligible⟩

/-- With a default of 5, as it is configured by default, one of three is left. -/
theorem default_window_ignored :
    let s := defaultRun sha256Hash 5
    let s' := finalState (gcRun (sampleEnv sha256Hash) s)
    ({} : StoreOptions).defaultRetentionLatestN = 5 ∧
    s.store.options.defaultRetentionLatestN = 5 ∧ s.store.retention.values.length = 0 ∧
    (∀ entry ∈ s.store.checkpoints.entries, entry.2.descriptor.familyId = ⟨1⟩ ∧
      entry.2.descriptor.retention = .keepLatestN) ∧
    [⟨1⟩, ⟨2⟩, ⟨3⟩].map s.store.lifecycle =
      [some .committed, some .committed, some .committed] ∧
    (returned (gcEligibleCheckpoints (sampleEnv sha256Hash) s)).any (⟨2⟩ ∈ ·) = true ∧
    [⟨1⟩, ⟨2⟩, ⟨3⟩].map s'.store.lifecycle =
      [some .deleted, some .deleted, some .committed] := by
  decide +kernel

end CheckpointStore
