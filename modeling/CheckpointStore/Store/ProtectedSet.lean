import CheckpointStore.Store.Gc
import CheckpointStore.Store.Protection

/-!
# The protected set at any clock

`compute_protected` asks about a checkpoint once in every round, and with a retention time the
answer depends on the clock. `Saturated` is what the result has in common at any clock: what is left
out was refused in the last round, the ancestors of what is in are in, and everything in was
accepted or has been reached from something in. `WhileChanged` is the loop of the source without a
bound on its rounds; `computed_set_saturated` shows that it ends with a saturated set.
-/

namespace CheckpointStore

open Foundation Foundation.Procedure Foundation.UnorderedMap

variable {W : Type}

/-- At some reading of the clock the check gives this answer. -/
def Answers (env : Env) (store : Store W) (rec : CheckpointRecord) (answer : Bool) : Prop :=
  ∃ n, keptAt env (env.clock n) store rec = answer

/-- A reason for entering a checkpoint: it was accepted, or a checkpoint that has been entered has
it in its lineage. -/
def Reason (env : Env) (store : Store W) (marked : List CheckpointId) (cid : CheckpointId) :
    Prop :=
  (∃ rec, store.checkpoints.find cid = some rec ∧ Answers env store rec true) ∨
    ∃ c rec, c ∈ marked ∧ store.checkpoints.find c = some rec ∧ cid ∈ rec.manifest.lineage

/-- Only existing checkpoints were entered, each for a reason that was there before. The last one
entered is in front. -/
def Justified (env : Env) (store : Store W) : List CheckpointId → Prop
  | [] => True
  | cid :: rest => (store.checkpoints.contains cid = true ∧ Reason env store rest cid) ∧
      Justified env store rest

/-- The set that the loop ends with. -/
structure Saturated (env : Env) (store : Store W) (marked : List CheckpointId) : Prop where
  justified : Justified env store marked
  refused : ∀ cid rec, store.checkpoints.find cid = some rec → cid ∉ marked →
    Answers env store rec false
  closed : ∀ cid ∈ marked, ∀ rec, store.checkpoints.find cid = some rec →
    ∀ anc ∈ rec.manifest.lineage, store.checkpoints.contains anc = true → anc ∈ marked

/-- The `while (changed)` loop, for as many rounds as it takes. -/
inductive WhileChanged (env : Env) (store : Store W) :
    List CheckpointId → System W → List CheckpointId → System W → Prop where
  | stop {marked : List CheckpointId} {first : List CheckpointId × Bool} {s s' : System W}
      (hpass : markPass env store (buildFamilyGenerations store) store.checkpoints.entries
        marked false s = .ok first s')
      (hunchanged : (ancestryPass store first).2 = false) :
      WhileChanged env store marked s (ancestryPass store first).1 s'
  | again {marked result : List CheckpointId} {first : List CheckpointId × Bool}
      {s s₁ s' : System W}
      (hpass : markPass env store (buildFamilyGenerations store) store.checkpoints.entries
        marked false s = .ok first s₁)
      (hchanged : (ancestryPass store first).2 = true)
      (hrest : WhileChanged env store (ancestryPass store first).1 s₁ result s') :
      WhileChanged env store marked s result s'

/-! ## One round -/

section Round

variable {env : Env} {store : Store W}

/-- What is justified exists. -/
theorem Justified.existing {marked : List CheckpointId} (h : Justified env store marked) :
    ∀ cid ∈ marked, store.checkpoints.contains cid = true := by
  induction marked with
  | nil => simp
  | cons cid rest ih =>
      intro c hc
      rcases List.mem_cons.mp hc with rfl | hin
      · exact h.1.1
      · exact ih h.2 c hin

/-- What holds of the accepted checkpoints and is passed on to ancestors holds of all. -/
theorem Justified.spread {marked : List CheckpointId} (h : Justified env store marked)
    {P : CheckpointId → Prop}
    (haccepted : ∀ cid rec, store.checkpoints.find cid = some rec → Answers env store rec true →
      P cid)
    (hancestor : ∀ c rec anc, P c → store.checkpoints.find c = some rec →
      anc ∈ rec.manifest.lineage → store.checkpoints.contains anc = true → P anc) :
    ∀ cid ∈ marked, P cid := by
  induction marked with
  | nil => simp
  | cons cid rest ih =>
      intro c hc
      rcases List.mem_cons.mp hc with rfl | hin
      · rcases h.1.2 with ⟨rec, hfind, hanswer⟩ | ⟨c', rec, hc', hfind, hanc⟩
        · exact haccepted c rec hfind hanswer
        · exact hancestor c' rec c (ih h.2 c' hc') hfind hanc h.1.1
      · exact ih h.2 c hin

/-- One pass marks what is justified and grows the marking. -/
theorem mark_pass_spec {entries : List (CheckpointId × CheckpointRecord)}
    (hentries : ∀ entry ∈ entries, store.checkpoints.find entry.1 = some entry.2)
    (state : Marking CheckpointId) {state' : Marking CheckpointId} {s s' : System W}
    (h : markPass env store (buildFamilyGenerations store) entries state.1 state.2 s =
      .ok state' s') :
    Grows state state' ∧ (Justified env store state.1 → Justified env store state'.1) ∧
      ∀ entry ∈ entries, entry.1 ∉ state'.1 → Answers env store entry.2 false := by
  induction entries generalizing state s with
  | nil =>
      cases h
      exact ⟨.refl state, fun hj => hj, by simp⟩
  | cons entry rest ih =>
      obtain ⟨cid, rec⟩ := entry
      have hfind : store.checkpoints.find cid = some rec := hentries (cid, rec) (by simp)
      have hrest : ∀ entry ∈ rest, store.checkpoints.find entry.1 = some entry.2 :=
        fun entry hin => hentries entry (List.mem_cons_of_mem _ hin)
      unfold markPass at h
      by_cases hin : cid ∈ state.1
      · rw [if_pos hin] at h
        obtain ⟨hgrows, hjustified, hrefused⟩ := ih hrest state h
        refine ⟨hgrows, hjustified, fun entry hentry hout => ?_⟩
        rcases List.mem_cons.mp hentry with rfl | hentry
        · exact absurd (hgrows.suffix.subset hin) hout
        · exact hrefused entry hentry hout
      · obtain ⟨n, hasked⟩ := is_protected_eq env store rec s
        rw [if_neg hin] at h
        have hbind : EStateM.bind _ _ s = _ := h
        rw [EStateM.bind, hasked] at hbind
        dsimp only at hbind
        cases hanswer : keptAt env (env.clock s.ticks) store rec with
        | true =>
            rw [hanswer] at hbind
            obtain ⟨hgrows, hjustified, hrefused⟩ := ih hrest (cid :: state.1, true) hbind
            refine ⟨(Grows.enter hin).trans hgrows, fun hj => hjustified ⟨
              ⟨contains_iff.mpr ⟨rec, hfind⟩, Or.inl ⟨rec, hfind, s.ticks, hanswer⟩⟩, hj⟩,
              fun entry hentry hout => ?_⟩
            rcases List.mem_cons.mp hentry with rfl | hentry
            · exact absurd (hgrows.suffix.subset (by simp)) hout
            · exact hrefused entry hentry hout
        | false =>
            rw [hanswer] at hbind
            obtain ⟨hgrows, hjustified, hrefused⟩ := ih hrest state hbind
            refine ⟨hgrows, hjustified, fun entry hentry hout => ?_⟩
            rcases List.mem_cons.mp hentry with rfl | hentry
            · exact ⟨s.ticks, hanswer⟩
            · exact hrefused entry hentry hout

/-- A loop marks what is justified if every round does. -/
theorem foldl_justified {β : Type} {f : Marking CheckpointId → β → Marking CheckpointId}
    {xs : List β} (marked : List CheckpointId)
    (hf : ∀ state, ∀ x ∈ xs, marked <:+ state.1 → Justified env store state.1 →
      marked <:+ (f state x).1 ∧ Justified env store (f state x).1)
    {state : Marking CheckpointId} (hsuffix : marked <:+ state.1)
    (h : Justified env store state.1) : Justified env store (xs.foldl f state).1 := by
  induction xs generalizing state with
  | nil => exact h
  | cons x rest ih =>
      obtain ⟨hsuffix', h'⟩ := hf state x (by simp) hsuffix h
      exact ih (fun state y hy => hf state y (List.mem_cons_of_mem _ hy)) hsuffix' h'

/-- The second pass enters for a reason. -/
theorem Justified.ancestry {state : Marking CheckpointId} (h : Justified env store state.1) :
    Justified env store (ancestryPass store state).1 := by
  refine foldl_justified [] (fun state entry hentry _ hstate => ⟨by simp, ?_⟩) (by simp)
    h
  split
  · next hin =>
      -- While one lineage is entered, the checkpoint that has it stays entered.
      refine foldl_justified state.1 (fun state' anc hanc hsuffix hstate' => ?_)
        List.suffix_rfl hstate
      split
      · next hnew =>
          exact ⟨hsuffix.trans (List.suffix_cons _ _), ⟨hnew.1, Or.inr
            ⟨entry.1, entry.2, hsuffix.subset hin, find_eq_some_iff.mpr hentry, hanc⟩⟩, hstate'⟩
      · exact ⟨hsuffix, hstate'⟩
  · exact hstate

/-- The pass over the lineages grows the marking. -/
theorem grows_ancestry_pass (store : Store W) (state : Marking CheckpointId) :
    Grows state (ancestryPass store state) := .foldl (grows_mark_lineage store) _ _

end Round

/-! ## The loop -/

section Loop

variable {env : Env} {store : Store W}

theorem entries_found (entry : CheckpointId × CheckpointRecord)
    (h : entry ∈ store.checkpoints.entries) : store.checkpoints.find entry.1 = some entry.2 :=
  find_eq_some_iff.mpr h

/-- The loop ends with a saturated marking. -/
theorem WhileChanged.saturated {marked result : List CheckpointId} {s s' : System W}
    (h : WhileChanged env store marked s result s') (hmarked : Justified env store marked) :
    Saturated env store result := by
  induction h with
  | @stop marked first s s' hpass hunchanged =>
      obtain ⟨hgrows, _, hrefused⟩ := mark_pass_spec entries_found (marked, false) hpass
      -- Neither pass has entered anything.
      have hsecond := (grows_ancestry_pass store first).unchanged hunchanged
      have hfirst : first = (marked, false) := hgrows.unchanged (hsecond ▸ hunchanged)
      rw [hsecond]
      subst hfirst
      exact ⟨hmarked, fun cid rec hfind => hrefused (cid, rec) (find_eq_some_iff.mp hfind),
        fun cid hin rec hfind anc hanc => closed_of_ancestry_unchanged hunchanged hin hfind hanc⟩
  | @again marked result first s s₁ s' hpass _ _ ih =>
      obtain ⟨_, hjustified, _⟩ := mark_pass_spec entries_found (marked, false) hpass
      exact ih (hjustified hmarked).ancestry

/-- With a round to spare for every checkpoint that is not in yet, the loop ends by itself. -/
theorem protect_loop_ends {bound : Nat} (marked : List CheckpointId)
    (hmarked : Justified env store marked) (hnodup : marked.Nodup)
    (hbound : store.checkpoints.size < marked.length + bound) (s : System W) :
    ∃ result s', protectLoop env store (buildFamilyGenerations store) bound marked s =
      .ok result s' ∧ WhileChanged env store marked s result s' := by
  induction bound generalizing marked s with
  | zero =>
      have hle := length_le_size hmarked.existing hnodup
      omega
  | succ bound ih =>
      obtain ⟨first, s₁, hpass, _⟩ := returns_mark_pass env store (buildFamilyGenerations store)
        store.checkpoints.entries marked false s
      obtain ⟨hgrows, hjustified, _⟩ :=
        mark_pass_spec entries_found (marked, false) hpass
      have hround := hgrows.trans (grows_ancestry_pass store first)
      unfold protectLoop
      show ∃ result s', EStateM.bind _ _ s = _ ∧ _
      rw [EStateM.bind, hpass]
      dsimp only
      by_cases hchanged : (ancestryPass store first).2 = true
      · have hlonger := (hround.longer hchanged).resolve_left (by simp)
        obtain ⟨result, s', hloop, hwhile⟩ := ih _ (hjustified hmarked).ancestry
          (hround.nodup hnodup) (by simp only at hlonger; omega) s₁
        rw [if_pos hchanged]
        exact ⟨result, s', hloop, .again hpass hchanged hwhile⟩
      · rw [if_neg hchanged]
        exact ⟨_, s₁, rfl, .stop hpass (by simpa using hchanged)⟩

/-- `compute_protected_set` returns, and its loop has ended by itself. -/
theorem compute_protected_set_ends (env : Env) (s : System W) :
    ∃ marked s', computeProtectedSet env s = .ok marked s' ∧
      WhileChanged env s.store [] s marked s' :=
  protect_loop_ends [] trivial List.nodup_nil (by simp) s

/-- Whatever the clock does, `compute_protected_set` returns a saturated set. -/
theorem computed_set_saturated {marked : List CheckpointId} {s s' : System W}
    (h : computeProtectedSet env s = .ok marked s') : Saturated env s.store marked := by
  obtain ⟨marked', s'', hrun, hwhile⟩ := compute_protected_set_ends env s
  rw [hrun] at h
  cases h
  exact hwhile.saturated trivial

/-- `gc_eligible_checkpoints` returns the committed and retired checkpoints outside of such a
set. -/
theorem gc_eligible_saturated {eligible : List CheckpointId} {s s' : System W}
    (h : gcEligibleCheckpoints env s = .ok eligible s') :
    ∃ marked, Saturated env s.store marked ∧ ∀ cid, cid ∈ eligible ↔
      ∃ rec, s.store.checkpoints.find cid = some rec ∧
        (rec.lifecycle = .committed ∨ rec.lifecycle = .retired) ∧ cid ∉ marked := by
  have hpost : Post (gcEligibleCheckpoints env) s (fun eligible _ => ∃ marked,
      Saturated env s.store marked ∧ eligible = eligibleOutside s.store marked)
      (fun _ _ => True) := by
    rw [gcEligibleCheckpoints, post_bind]
    refine (returns_compute_protected_set env).post fun marked t hmarked hclock => ?_
    obtain ⟨n, ht⟩ := hclock
    rw [post_bind, post_get, post_pure, ht]
    exact ⟨marked, computed_set_saturated hmarked, rfl⟩
  obtain ⟨marked, hsaturated, rfl⟩ := hpost.of_ok h
  exact ⟨marked, hsaturated, fun cid => mem_eligible_outside⟩

/-- What is kept at any time is in the set. -/
theorem Saturated.mem_of_kept {marked : List CheckpointId} (h : Saturated env store marked)
    {cid : CheckpointId} {rec : CheckpointRecord} (hfind : store.checkpoints.find cid = some rec)
    (hkept : ∀ present, keptAt env present store rec = true) : cid ∈ marked := by
  by_contra hout
  obtain ⟨n, hrefused⟩ := h.refused cid rec hfind hout
  rw [hkept] at hrefused
  cases hrefused

/-- What is in the set was accepted, unless some lineage has it. -/
theorem Saturated.accepted_of_mem {marked : List CheckpointId} (h : Saturated env store marked)
    {cid : CheckpointId} (hin : cid ∈ marked) {rec : CheckpointRecord}
    (hfind : store.checkpoints.find cid = some rec)
    (hapart : ∀ c r, store.checkpoints.find c = some r → cid ∉ r.manifest.lineage) :
    Answers env store rec true := by
  have hreason := h.justified.spread
    (P := fun cid => (∃ rec, store.checkpoints.find cid = some rec ∧ Answers env store rec true) ∨
      ∃ c r, store.checkpoints.find c = some r ∧ cid ∈ r.manifest.lineage)
    (fun cid rec hfind hanswer => Or.inl ⟨rec, hfind, hanswer⟩)
    (fun c r anc _ hfind hanc _ => Or.inr ⟨c, r, hfind, hanc⟩) cid hin
  rcases hreason with ⟨rec', hfind', hanswer⟩ | ⟨c, r, hr, hanc⟩
  · rw [hfind] at hfind'
    cases hfind'
    exact hanswer
  · exact absurd hanc (hapart c r hr)

/-- Outside of lineages, an answer that does not depend on the time decides. -/
theorem Saturated.mem_iff {marked : List CheckpointId} (h : Saturated env store marked)
    {cid : CheckpointId} {rec : CheckpointRecord} (hfind : store.checkpoints.find cid = some rec)
    (hapart : ∀ c r, store.checkpoints.find c = some r → cid ∉ r.manifest.lineage) {answer : Bool}
    (hanswer : ∀ n, keptAt env (env.clock n) store rec = answer) :
    cid ∈ marked ↔ answer = true := by
  constructor
  · intro hin
    obtain ⟨n, haccepted⟩ := h.accepted_of_mem hin hfind hapart
    exact (hanswer n).symm.trans haccepted
  · intro htrue
    by_contra hout
    obtain ⟨n, hrefused⟩ := h.refused cid rec hfind hout
    rw [hanswer, htrue] at hrefused
    cases hrefused

/-- A store with the same checkpoints and verdicts has the same saturated sets. -/
theorem Saturated.of_same {store' : Store W} {marked : List CheckpointId}
    (h : Saturated env store marked) (hcheckpoints : store'.checkpoints = store.checkpoints)
    (hkept : ∀ present, keptAt env present store' = keptAt env present store) :
    Saturated env store' marked := by
  have hanswers : Answers env store' = Answers env store := by
    funext rec answer
    simp only [Answers, hkept]
  have hjustified : ∀ marked, Justified env store marked → Justified env store' marked := by
    intro marked hmarked
    induction marked with
    | nil => trivial
    | cons cid rest ih =>
        refine ⟨?_, ih hmarked.2⟩
        rw [Reason, hcheckpoints, hanswers]
        exact hmarked.1
  refine ⟨hjustified marked h.justified, ?_, ?_⟩
  · rw [hcheckpoints, hanswers]
    exact h.refused
  · rw [hcheckpoints]
    exact h.closed

/-- The committed and retired checkpoints outside of a set have been deleted. -/
def DeletedOutside (marked : List CheckpointId) (store store' : Store W) : Prop :=
  ∀ cid, store'.checkpoints.find cid = (store.checkpoints.find cid).map fun rec =>
    if (rec.lifecycle = .committed ∨ rec.lifecycle = .retired) ∧ cid ∉ marked then
      { rec with lifecycle := .deleted } else rec

/-- A marked record is untouched. -/
theorem DeletedOutside.find_of_mem {marked : List CheckpointId} {store store' : Store W}
    (h : DeletedOutside marked store store') {cid : CheckpointId} (hin : cid ∈ marked) :
    store'.checkpoints.find cid = store.checkpoints.find cid := by
  rw [h cid]
  cases store.checkpoints.find cid with
  | none => rfl
  | some rec => simp [hin]

theorem DeletedOutside.descriptor_eq {marked : List CheckpointId} {store store' : Store W}
    (h : DeletedOutside marked store store') {cid : CheckpointId} {rec' : CheckpointRecord}
    (hfind : store'.checkpoints.find cid = some rec') :
    ∃ rec, store.checkpoints.find cid = some rec ∧ rec'.descriptor = rec.descriptor := by
  rw [h cid, Option.map_eq_some_iff] at hfind
  obtain ⟨rec, hrec, rfl⟩ := hfind
  exact ⟨rec, hrec, by rw [apply_ite CheckpointRecord.descriptor, ite_self]⟩

/-- A collection deletes the committed and retired checkpoints outside of such a set. -/
theorem GcRan.saturated {s s' : System W} (h : GcRan env s s') :
    ∃ marked, Saturated env s.store marked ∧ DeletedOutside marked s.store s'.store := by
  obtain ⟨eligible, _, heligible, hcheckpoints⟩ := h.swept_eligible
  obtain ⟨marked, hsaturated, hmem⟩ := gc_eligible_saturated heligible
  refine ⟨marked, hsaturated, fun cid => ?_⟩
  rw [hcheckpoints, find_sweep_eq]
  cases hfind : s.store.checkpoints.find cid with
  | none => simp
  | some rec =>
      have hin : cid ∈ eligible ↔
          (rec.lifecycle = .committed ∨ rec.lifecycle = .retired) ∧ cid ∉ marked := by
        rw [hmem]
        simp [hfind]
      rw [Option.map_some, Option.map_some]
      by_cases hswept : (rec.lifecycle = .committed ∨ rec.lifecycle = .retired) ∧ cid ∉ marked
      · rw [if_pos (hin.mpr hswept), if_pos hswept, CheckpointRecord.swept, if_neg]
        rcases hswept.1 with hlifecycle | hlifecycle <;> simp [hlifecycle]
      · rw [if_neg (fun h => hswept (hin.mp h)), if_neg hswept]

end Loop

end CheckpointStore
