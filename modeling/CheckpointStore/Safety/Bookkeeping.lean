import CheckpointStore.Safety.Records

/-!
# Families and generations

`Books` is what the store is supposed to know about families, as functions: which checkpoints a
family lists, which generation it expects next, and the descriptor of every checkpoint. A step of
the store is a step of the books (`step_books`): nothing, a new family, or a new checkpoint at the
expected generation. The invariant `Books.Sound` then gives `generations_consecutive`, and
`create_family_fresh` says when a new family gets an identity of its own.
-/

namespace CheckpointStore

open Foundation Foundation.Procedure Foundation.UnorderedMap

variable {W : Type}

/-! ## The books -/

/-- The bookkeeping of families. -/
@[ext] structure Books where
  members : CheckpointFamilyId → Option (List CheckpointId)
  next : CheckpointFamilyId → Option CheckpointGeneration
  nextFamilyId : CheckpointFamilyId
  descriptor : CheckpointId → Option CheckpointDescriptor

/-- The books a store keeps. -/
def Store.books (store : Store W) : Books where
  members id := (store.families.find id).map fun f => f.checkpointIds
  next := store.nextCheckpointGeneration.find
  nextFamilyId := store.nextFamilyId
  descriptor id := (store.checkpoints.find id).map fun r => r.descriptor

namespace Books

/-- The books after a family has been created: a family that has the identity is kept, but it
starts again with the first generation. -/
def create (b : Books) : Books :=
  { b with
    members id := if id = b.nextFamilyId then some ((b.members id).getD []) else b.members id
    next id := if id = b.nextFamilyId then some ⟨1⟩ else b.next id
    nextFamilyId := ⟨b.nextFamilyId.value + 1⟩ }

/-- The books after a checkpoint has been committed. -/
def enroll (b : Books) (d : CheckpointDescriptor) : Books :=
  { b with
    members id :=
      if id = d.familyId then (b.members id).map fun ids => ids ++ [d.id] else b.members id
    next id := if id = d.familyId then some d.generation.next else b.next id
    descriptor id := if id = d.id then some d else b.descriptor id }

end Books

/-- A call of `create_family`. -/
def Event.createsFamily : Event W → Bool
  | .call .createFamily _ => true
  | _ => false

/-- How often `create_family` has been called. -/
def familiesCreated (events : List (Event W)) : Nat := events.countP Event.createsFamily

/-- What a step does to the books. -/
inductive BookStep (b : Books) : Event W → Books → Prop where
  | kept {e : Event W} : BookStep b e b
  | created : BookStep b (.call .createFamily none) b.create
  | enrolled {d : CheckpointDescriptor} {data : Bytes} (hfresh : b.descriptor d.id = none)
      (hnext : b.next d.familyId = some d.generation) :
      BookStep b (.call (.publish d data) none) (b.enroll d)

/-! ## Steps of the store are steps of the books -/

section Components

variable (store : Store W)

theorem books_members (id : CheckpointFamilyId) :
    store.books.members id = (store.families.find id).map fun f => f.checkpointIds := rfl

theorem books_next (id : CheckpointFamilyId) :
    store.books.next id = store.nextCheckpointGeneration.find id := rfl

theorem books_descriptor (id : CheckpointId) :
    store.books.descriptor id = (store.checkpoints.find id).map fun r => r.descriptor := rfl

end Components

theorem SameContent.descriptor_eq {R : W → W → Prop} {s s' : System W} (h : SameContent R s s')
    (id : CheckpointId) : s'.store.books.descriptor id = s.store.books.descriptor id := by
  have hcontent := congrArg (Option.map fun r : CheckpointRecord => r.descriptor)
    (h.checkpoints id)
  simp only [Option.map_map, Function.comp_def] at hcontent
  exact hcontent

theorem books_eq {s s' : System W} (hregistry : SameRegistry s s')
    (hdescriptor : ∀ id, s'.store.books.descriptor id = s.store.books.descriptor id) :
    s'.store.books = s.store.books := by
  ext1
  · funext id
    exact congrArg (Option.map fun f : FamilyRecord => f.checkpointIds) (hregistry.families id)
  · exact funext hregistry.nextGenerations
  · exact hregistry.nextFamilyId
  · exact funext hdescriptor

/-- A new family is entered in the books. -/
theorem books_family_created (store : Store W) :
    (familyCreated store).books = store.books.create := by
  ext1
  · funext id
    rw [books_members, familyCreated, find_emplace]
    show _ = if id = store.nextFamilyId then _ else _
    by_cases hid : id = store.nextFamilyId
    · subst hid
      cases hfind : store.families.find store.nextFamilyId with
      | none => simp [Store.books, hfind]
      | some f => simp [Store.books, hfind]
    · simp [Store.books, hid]
  · funext id
    rw [books_next, familyCreated, find_assign]
    rfl
  · rfl
  · rfl

section Steps

variable {env : Env} {s s' : System W} {descriptor : CheckpointDescriptor} {data : Bytes}

theorem PublishFailed.books_eq (h : PublishFailed env descriptor data s s') :
    s'.store.books = s.store.books := by
  obtain ⟨_, _, _, _, _, hstore⟩ := h.store_eq
  rw [hstore]
  rfl

theorem GcRan.books_eq (h : GcRan env s s') : s'.store.books = s.store.books :=
  CheckpointStore.books_eq h.same_registry (h.map_find fun _ => rfl)

theorem Published.find_record (h : Published env descriptor data s s') (id : CheckpointId) :
    s'.store.books.descriptor id =
      if id = descriptor.id then some descriptor else s.store.books.descriptor id := by
  cases h with
  | @intro underlay slices p w hadmitted _ hrounds _ _ =>
      rw [books_descriptor, books_descriptor, hrounds.find_published hadmitted.fresh,
        apply_ite (Option.map _)]
      rfl

/-- A publication is enrolled in the books. -/
theorem Published.books_eq (h : Published env descriptor data s s') :
    s'.store.books = s.store.books.enroll descriptor := by
  have henrolled := h.enrolled
  ext1
  · funext id
    rw [books_members, henrolled.families, find_modify]
    by_cases hid : id = descriptor.familyId
    · simp [Books.enroll, hid, books_members, Function.comp_def]
    · simp [Books.enroll, hid, books_members]
  · funext id
    rw [books_next, henrolled.nextGenerations, find_assign]
    rfl
  · exact henrolled.nextFamilyId
  · funext id
    rw [h.find_record]
    rfl

/-- A step of the store that is not a restart is a step of the books. -/
theorem step_books {R : W → W → Prop} {e : Event W} (h : Step env R s e s')
    (hreopen : e.reopens = false) : BookStep s.store.books e s'.store.books := by
  cases step_transition (all_look_anything s) h.anything with
  | quiet hevent hcontent =>
      have hdescriptor := hcontent.descriptor_eq
      cases step_registers h with
      | same hregistry =>
          rw [books_eq hregistry hdescriptor]
          exact .kept
      | created =>
          rw [books_family_created]
          exact .created
      | policySet policy => exact .kept
      | bootSet boot => exact .kept
      | published hpublished => simp [Event.publication] at hevent
      | saved answers =>
          obtain ⟨files, hfiles⟩ := files_saved env answers s
          rw [hfiles]
          exact .kept
      | reopened => simp [Event.reopens] at hreopen
  | published hpublished =>
      rw [hpublished.books_eq]
      cases hpublished with
      | intro hadmitted _ _ _ _ =>
          refine .enrolled ?_ hadmitted.generation
          simp [Store.books, hadmitted.fresh]
  | publishFailed hfailed =>
      rw [hfailed.books_eq]
      exact .kept
  | gcRan hran =>
      rw [hran.books_eq]
      exact .kept
  | reopened => simp [Event.reopens] at hreopen

end Steps

/-! ## Identities of families -/

namespace Books

/-- `n` identities have been given out to families, from 1 on. -/
structure Numbered (n : Nat) (b : Books) : Prop where
  nextFamilyId : b.nextFamilyId.value = UInt64.ofNat (n + 1)
  bounded : ∀ id ids, b.members id = some ids → (id.value - 1).toNat < n

variable {b : Books} {n : Nat}

/-- The place of the next identity among the 64-bit numbers. -/
theorem Numbered.place (h : b.Numbered n) (hn : n < 2 ^ 64) :
    (b.nextFamilyId.value - 1).toNat = n := by
  have hsucc : UInt64.ofNat (n + 1) = UInt64.ofNat n + 1 := UInt64.ofNat_add n 1
  rw [h.nextFamilyId, hsucc, UInt64.add_sub_cancel, UInt64.toNat_ofNat_of_lt' hn]

/-- The next identity is free, before all 64-bit numbers are used up. -/
theorem Numbered.fresh (h : b.Numbered n) (hn : n < 2 ^ 64) : b.members b.nextFamilyId = none := by
  cases hmembers : b.members b.nextFamilyId with
  | none => rfl
  | some ids =>
      have hlt := h.bounded _ ids hmembers
      rw [h.place hn] at hlt
      omega

theorem Numbered.create (h : b.Numbered n) (hn : n < 2 ^ 64) : b.create.Numbered (n + 1) where
  nextFamilyId := by
    show b.nextFamilyId.value + 1 = _
    rw [h.nextFamilyId, UInt64.ofNat_add (n + 1)]
    rfl
  bounded id ids hmembers := by
    by_cases hid : id = b.nextFamilyId
    · rw [hid, h.place hn]
      omega
    · simp only [Books.create, if_neg hid] at hmembers
      have hlt := h.bounded id ids hmembers
      omega

theorem Numbered.enroll (h : b.Numbered n) (d : CheckpointDescriptor) :
    (b.enroll d).Numbered n where
  nextFamilyId := h.nextFamilyId
  bounded id ids hmembers := by
    simp only [Books.enroll] at hmembers
    split at hmembers
    · obtain ⟨ids', hmembers', _⟩ := Option.map_eq_some_iff.mp hmembers
      exact h.bounded id ids' hmembers'
    · exact h.bounded id ids hmembers

/-- One step gives out at most one number. -/
theorem Numbered.step {b' : Books} {e : Event W} (h : b.Numbered n) (hstep : BookStep b e b')
    (hn : n + familiesCreated [e] ≤ 2 ^ 64) : ∃ n' ≤ n + familiesCreated [e], b'.Numbered n' := by
  cases hstep with
  | kept => exact ⟨n, by omega, h⟩
  | created => exact ⟨n + 1, le_refl _, h.create hn⟩
  | enrolled => exact ⟨n, by omega, h.enroll _⟩

/-! ## Generations -/

/-- The checkpoints of a family are its generations from 1 on, each listed once. -/
structure Consecutive (b : Books) (id : CheckpointFamilyId) (ids : List CheckpointId) : Prop where
  nodup : ids.Nodup
  generations : ∀ i c, ids[i]? = some c → ∃ d, b.descriptor c = some d ∧ d.familyId = id ∧
    d.generation = ⟨UInt64.ofNat (i + 1)⟩
  next : b.next id = some ⟨UInt64.ofNat (ids.length + 1)⟩

/-- Every checkpoint belongs to a family, and every family has consecutive generations. -/
structure Sound (b : Books) : Prop where
  known : ∀ id, b.members id = none → b.next id = none
  listed : ∀ c d, b.descriptor c = some d → ∃ ids, b.members d.familyId = some ids ∧ c ∈ ids
  consecutive : ∀ id ids, b.members id = some ids → b.Consecutive id ids

theorem next_of_nat (kind : GenerationKind) (i : Nat) :
    BasicGeneration.next ⟨UInt64.ofNat i⟩ = (⟨UInt64.ofNat (i + 1)⟩ : BasicGeneration kind) :=
  congrArg BasicGeneration.mk (UInt64.ofNat_add i 1).symm

/-- A new family keeps the books sound. -/
theorem Sound.create (h : b.Sound) (hfree : b.members b.nextFamilyId = none) : b.create.Sound where
  known id hmembers := by
    by_cases hid : id = b.nextFamilyId
    · simp [Books.create, hid] at hmembers
    · simp only [Books.create, if_neg hid] at hmembers ⊢
      exact h.known id hmembers
  listed c d hdescriptor := by
    obtain ⟨ids, hmembers, hin⟩ := h.listed c d hdescriptor
    have hid : d.familyId ≠ b.nextFamilyId := by
      intro heq
      simp [heq, hfree] at hmembers
    exact ⟨ids, by simpa only [Books.create, if_neg hid] using hmembers, hin⟩
  consecutive id ids hmembers := by
    by_cases hid : id = b.nextFamilyId
    · -- The new family is empty and expects the first generation.
      simp only [Books.create, hid, hfree, if_true, Option.getD_none, Option.some.injEq] at hmembers
      subst hmembers
      exact ⟨List.nodup_nil, fun i c hc => by simp at hc, by simp [Books.create, hid]⟩
    · simp only [Books.create, if_neg hid] at hmembers
      obtain ⟨hnodup, hgenerations, hnext⟩ := h.consecutive id ids hmembers
      exact ⟨hnodup, hgenerations, by simpa only [Books.create, if_neg hid] using hnext⟩

/-- A checkpoint at the expected generation continues its family. -/
theorem Consecutive.append {ids : List CheckpointId} {d : CheckpointDescriptor}
    (h : b.Consecutive d.familyId ids) (hfresh : b.descriptor d.id = none)
    (hnext : b.next d.familyId = some d.generation) :
    (b.enroll d).Consecutive d.familyId (ids ++ [d.id]) := by
  have hgeneration : d.generation = ⟨UInt64.ofNat (ids.length + 1)⟩ :=
    Option.some.inj (hnext.symm.trans h.next)
  have hother : ∀ c ∈ ids, c ≠ d.id := by
    rintro c hin rfl
    obtain ⟨i, hi⟩ := List.mem_iff_getElem?.mp hin
    obtain ⟨d', hd', _⟩ := h.generations i _ hi
    simp [hfresh] at hd'
  refine ⟨?_, fun i c hc => ?_, ?_⟩
  · exact List.nodup_append.mpr ⟨h.nodup, by simp, fun c hin c' hin' => by
      rw [List.mem_singleton.mp hin']
      exact hother c hin⟩
  · rcases Nat.lt_trichotomy i ids.length with hlt | rfl | hgt
    · rw [List.getElem?_append_left hlt] at hc
      obtain ⟨d', hd', hfamily, hgen⟩ := h.generations i c hc
      refine ⟨d', ?_, hfamily, hgen⟩
      simpa only [Books.enroll, if_neg (hother c (List.mem_of_getElem? hc))] using hd'
    · simp only [List.getElem?_concat_length, Option.some.injEq] at hc
      subst hc
      exact ⟨d, by simp [Books.enroll], rfl, hgeneration⟩
    · rw [List.getElem?_eq_none (by simp; omega)] at hc
      simp at hc
  · simp only [Books.enroll, if_true, hgeneration, next_of_nat, List.length_append,
      List.length_singleton]

/-- So does a checkpoint of the next generation. -/
theorem Sound.enroll {d : CheckpointDescriptor} (h : b.Sound) (hfresh : b.descriptor d.id = none)
    (hnext : b.next d.familyId = some d.generation) : (b.enroll d).Sound := by
  obtain ⟨ids, hmembers⟩ : ∃ ids, b.members d.familyId = some ids := by
    cases hmembers : b.members d.familyId with
    | none =>
        rw [h.known _ hmembers] at hnext
        simp at hnext
    | some ids => exact ⟨ids, rfl⟩
  have hnew : (b.enroll d).members d.familyId = some (ids ++ [d.id]) := by
    simp [Books.enroll, hmembers]
  have hold : ∀ id, id ≠ d.familyId → (b.enroll d).members id = b.members id :=
    fun id hid => by simp only [Books.enroll, if_neg hid]
  refine ⟨fun id hnone => ?_, fun c d' hdescriptor => ?_, fun id ids' hmembers' => ?_⟩
  · have hid : id ≠ d.familyId := by
      rintro rfl
      simp [hnew] at hnone
    rw [hold id hid] at hnone
    simpa only [Books.enroll, if_neg hid] using h.known id hnone
  · by_cases hc : c = d.id
    · simp only [Books.enroll, hc, if_true, Option.some.injEq] at hdescriptor
      subst hdescriptor
      exact ⟨_, hnew, by simp [hc]⟩
    · simp only [Books.enroll, if_neg hc] at hdescriptor
      obtain ⟨ids', hmembers', hin⟩ := h.listed c d' hdescriptor
      by_cases hid : d'.familyId = d.familyId
      · rw [hid, hmembers, Option.some.injEq] at hmembers'
        subst hmembers'
        exact ⟨_, hid ▸ hnew, List.mem_append_left _ hin⟩
      · exact ⟨ids', by rw [hold _ hid, hmembers'], hin⟩
  · by_cases hid : id = d.familyId
    · rw [hid, hnew, Option.some.injEq] at hmembers'
      subst hid hmembers'
      exact (h.consecutive _ _ hmembers).append hfresh hnext
    · rw [hold id hid] at hmembers'
      obtain ⟨hnodup, hgenerations, hnext'⟩ := h.consecutive id ids' hmembers'
      refine ⟨hnodup, fun i c hi => ?_, by simpa only [Books.enroll, if_neg hid] using hnext'⟩
      obtain ⟨d', hd', hfamily, hgen⟩ := hgenerations i c hi
      have hc : c ≠ d.id := by
        rintro rfl
        simp [hfresh] at hd'
      exact ⟨d', by simpa only [Books.enroll, if_neg hc] using hd', hfamily, hgen⟩

/-- So does every step. -/
theorem Sound.step {b' : Books} {e : Event W} (h : b.Sound) (hnumbered : b.Numbered n)
    (hn : n + familiesCreated [e] ≤ 2 ^ 64) (hstep : BookStep b e b') : b'.Sound := by
  cases hstep with
  | kept => exact h
  | created => exact h.create (hnumbered.fresh hn)
  | enrolled hfresh hnext => exact h.enroll hfresh hnext

end Books

/-! ## Runs -/

theorem families_created_append (events : List (Event W)) (e : Event W) :
    familiesCreated (events ++ [e]) = familiesCreated events + familiesCreated [e] :=
  List.countP_append

section Runs

variable {env : Env} {start : StoreOptions} {w : W} {s : System W} {events : List (Event W)}
  {registered : UnorderedMap StorageBackendId (IBackend W)} {files : UnorderedMap Bytes Bytes}

theorem numbered_create (options : StoreOptions)
    (backends : UnorderedMap StorageBackendId (IBackend W)) :
    (Store.create options backends).books.Numbered 0 :=
  ⟨rfl, fun _ _ hmembers => by simp [books_members, Store.create] at hmembers⟩

theorem sound_create (options : StoreOptions)
    (backends : UnorderedMap StorageBackendId (IBackend W)) :
    (Store.create options backends).books.Sound :=
  ⟨fun _ _ => rfl, fun c d h => by simp [books_descriptor, Store.create] at h,
    fun _ _ hmembers => by simp [books_members, Store.create] at hmembers⟩

/-- Without a restart the books are sound, as long as the identities of families do not wrap
around. -/
theorem sound_run
    (hrun : Run (Step env Anything) { System.fresh start registered w with files := files }
      events s)
    (hreopen : ∀ e ∈ events, e.reopens = false) (hfamilies : familiesCreated events ≤ 2 ^ 64) :
    s.store.books.Sound ∧ ∃ n ≤ familiesCreated events, s.store.books.Numbered n := by
  refine Run.invariant_on (A := fun e => e.reopens = false)
    (fun events s => familiesCreated events ≤ 2 ^ 64 →
      s.store.books.Sound ∧ ∃ n ≤ familiesCreated events, s.store.books.Numbered n)
    (fun _ => ⟨sound_create start registered, 0, by simp, numbered_create start registered⟩) ?_
    hrun hreopen hfamilies
  intro events s e s' _ ih hadmitted hstep hbound
  rw [families_created_append] at hbound ⊢
  obtain ⟨hsound, n, hn, hnumbered⟩ := ih (by omega)
  have hbooks := step_books hstep hadmitted
  have hroom : n + familiesCreated [e] ≤ 2 ^ 64 := by omega
  obtain ⟨n', hn', hnumbered'⟩ := hnumbered.step hbooks hroom
  exact ⟨hsound.step hnumbered hroom hbooks, n', by omega, hnumbered'⟩

/-- Generation bookkeeping. In every state of a run without a restart, with arbitrary backends,
a family lists exactly the checkpoints that carry its identity, each once, their generations in
list order are 1, 2, and so on, and it expects the one after the last. Generations are 64-bit
numbers, and no more than `2 ^ 64` families are created. -/
theorem generations_consecutive
    (hrun : Run (Step env Anything) (System.fresh start registered w) events s)
    (hreopen : ∀ e ∈ events, e.reopens = false) (hfamilies : familiesCreated events ≤ 2 ^ 64)
    {id : CheckpointFamilyId} {f : FamilyRecord} (hfind : s.store.families.find id = some f) :
    (∀ c, c ∈ f.checkpointIds ↔
        ∃ rec, s.store.checkpoints.find c = some rec ∧ rec.descriptor.familyId = id) ∧
      f.checkpointIds.Nodup ∧
      (∀ i c, f.checkpointIds[i]? = some c → ∃ rec, s.store.checkpoints.find c = some rec ∧
        rec.descriptor.generation = ⟨UInt64.ofNat (i + 1)⟩) ∧
      s.store.nextCheckpointGeneration.find id =
        some ⟨UInt64.ofNat (f.checkpointIds.length + 1)⟩ := by
  have hempty : Run (Step env Anything) { System.fresh start registered w with files := ∅ } events
      s := hrun
  obtain ⟨hsound, _⟩ := sound_run hempty hreopen hfamilies
  have hmembers : s.store.books.members id = some f.checkpointIds := by
    rw [books_members, hfind]
    rfl
  obtain ⟨hnodup, hgenerations, hnext⟩ := hsound.consecutive id _ hmembers
  refine ⟨fun c => ⟨fun hin => ?_, fun ⟨rec, hrec, hfamily⟩ => ?_⟩, hnodup, fun i c hi => ?_, hnext⟩
  · obtain ⟨i, hi⟩ := List.mem_iff_getElem?.mp hin
    obtain ⟨d, hd, hfamily, _⟩ := hgenerations i c hi
    obtain ⟨rec, hrec, rfl⟩ := Option.map_eq_some_iff.mp hd
    exact ⟨rec, hrec, hfamily⟩
  · have hd : s.store.books.descriptor c = some rec.descriptor := by
      rw [books_descriptor, hrec]
      rfl
    obtain ⟨ids, hids, hin⟩ := hsound.listed c _ hd
    rw [hfamily, hmembers, Option.some.injEq] at hids
    rwa [hids]
  · obtain ⟨d, hd, _, hgen⟩ := hgenerations i c hi
    obtain ⟨rec, hrec, rfl⟩ := Option.map_eq_some_iff.mp hd
    exact ⟨rec, hrec, hgen⟩

/-- Two checkpoints of one family, with a refused one between them. -/
def twoGenerations : List (Op MemoryWorld) :=
  [.createFamily, .publish (sampleDescriptor 7 1 1) [0], .publish (sampleDescriptor 8 1 1) [1],
    .publish (sampleDescriptor 9 2 1) [0]]

/-- Between two generations a stale publication is refused. -/
theorem generations_consecutive_after_stale :
    let s := sampleRun tagHash [] twoGenerations
    (s.store.families.find ⟨1⟩).map (fun f => f.checkpointIds) = some [⟨7⟩, ⟨9⟩] ∧
      s.store.nextCheckpointGeneration.find ⟨1⟩ = some ⟨3⟩ := by
  intro s
  have hlisted : (s.store.families.find ⟨1⟩).map (fun f => f.checkpointIds) =
      some [⟨7⟩, ⟨9⟩] := by
    decide +kernel
  refine ⟨hlisted, ?_⟩
  obtain ⟨f, hfind, hids⟩ := Option.map_eq_some_iff.mp hlisted
  have hrun : Run (Step (sampleEnv tagHash) Anything) (sampleSystem tagHash []) _ s :=
    run_calls (sampleEnv tagHash) Anything (sampleSystem tagHash []) twoGenerations
  have hnext := (generations_consecutive hrun (by decide +kernel) (by decide +kernel)
    hfind).2.2.2
  rwa [hids] at hnext

/-! ## Fresh families -/

/-- `create_family` returns an identity that no family has, and leaves the record and the next
generation of every family as they are. -/
def CreatesFresh (s : System W) : Prop :=
  ∃ id s', createFamily s = .ok id s' ∧ s.store.families.find id = none ∧
    ∀ other f, s.store.families.find other = some f → s'.store.families.find other = some f ∧
      s'.store.nextCheckpointGeneration.find other = s.store.nextCheckpointGeneration.find other

/-- The next identity decides: nothing else protects an existing family. -/
theorem creates_fresh_iff (s : System W) :
    CreatesFresh s ↔ s.store.families.find s.store.nextFamilyId = none := by
  constructor
  · rintro ⟨id, s', hcreate, hfree, _⟩
    cases hcreate
    exact hfree
  · intro hfree
    refine ⟨_, _, rfl, hfree, fun other f hfind => ?_⟩
    have hother : other ≠ s.store.nextFamilyId := by
      rintro rfl
      simp [hfree] at hfind
    refine ⟨?_, ?_⟩
    · show (s.store.families.emplace _ _).find other = some f
      rw [find_emplace, if_neg hother, hfind]
    · show (s.store.nextCheckpointGeneration.assign _ _).find other = _
      rw [find_assign, if_neg hother]

/-- Loading does not touch the next identity. -/
theorem next_family_id_load_frame :
    LoadFrame fun st st' : Store W => st'.nextFamilyId = st.nextFamilyId where
  refl _ := rfl
  trans _ _ _ h h' := h'.trans h
  reset _ := rfl
  recount _ := rfl
  scalars _ _ _ _ _ _ _ _ := rfl
  family _ _ := rfl
  record _ _ := rfl
  blob _ _ := rfl
  replica _ _ := rfl
  placement _ _ := rfl
  retention _ _ := rfl
  dedup _ _ := rfl

/-- A restart counts families from 1 again. -/
theorem next_family_id_reopened (env : Env) (options : StoreOptions)
    (backends : UnorderedMap StorageBackendId (IBackend W)) (s : System W) :
    (finalState (reopenStore env options backends s)).store.nextFamilyId = ⟨1⟩ := by
  obtain ⟨store, hfinal, hstore⟩ := next_family_id_load_frame.reopened env options backends s
  rw [hfinal]
  exact hstore

theorem reopened_of_reopens {R : W → W → Prop} {s s' : System W} {e : Event W}
    (h : Step env R s e s') (hreopen : e.reopens = true) :
    ∃ options backends, s' = finalState (reopenStore env options backends s) := by
  cases h with
  | rehash => simp [Event.reopens] at hreopen
  | outside => simp [Event.reopens] at hreopen
  | call op =>
      cases op with
      | reopen options backends => exact ⟨options, backends, rfl⟩
      | _ => simp [Event.reopens] at hreopen

/-- A restart, if the step is one, leaves no family in the store. -/
def RestartsEmpty (_ : System W) (e : Event W) (s' : System W) : Prop :=
  e.reopens = true → s'.store.families.size = 0

instance (s : System W) (e : Event W) (s' : System W) : Decidable (RestartsEmpty s e s') :=
  inferInstanceAs (Decidable (_ → _))

/-- Families stay numbered through restarts that leave none. -/
theorem families_numbered_run
    (hrun : Run (fun s e s' => Step env Anything s e s' ∧ RestartsEmpty s e s')
      { System.fresh start registered w with files := files } events s)
    (hfamilies : familiesCreated events ≤ 2 ^ 64) :
    ∃ n ≤ familiesCreated events, s.store.books.Numbered n := by
  refine Run.invariant_on (A := fun _ => True)
    (fun events s => familiesCreated events ≤ 2 ^ 64 →
      ∃ n ≤ familiesCreated events, s.store.books.Numbered n)
    (fun _ => ⟨0, by simp, numbered_create start registered⟩) ?_ hrun (fun _ _ => trivial)
    hfamilies
  intro events s e s' _ ih _ ⟨hstep, hrestart⟩ hbound
  rw [families_created_append] at hbound ⊢
  obtain ⟨n, hn, hnumbered⟩ := ih (by omega)
  cases hreopen : e.reopens with
  | false =>
      obtain ⟨n', hn', hnumbered'⟩ := hnumbered.step (step_books hstep hreopen) (by omega)
      exact ⟨n', by omega, hnumbered'⟩
  | true =>
      -- The restart starts the numbering again, in a store without families.
      refine ⟨0, by omega, ?_, fun id ids hmembers => ?_⟩
      · obtain ⟨options, backends, hfinal⟩ := reopened_of_reopens hstep hreopen
        have hnext := next_family_id_reopened env options backends s
        rw [← hfinal] at hnext
        exact congrArg BasicId.value hnext
      · obtain ⟨f, hfind, _⟩ := Option.map_eq_some_iff.mp hmembers
        have hempty := hrestart hreopen
        simp [find_eq_none_of_size hempty] at hfind

/-- When new families are fresh. In any state `create_family` returns a new identity and leaves
every family alone exactly when no family has the next identity. This is so in every state of a
run whose restarts leave no family in the store, until all 64-bit identities are used up. -/
theorem create_family_fresh :
    (∀ s : System W, CreatesFresh s ↔ s.store.families.find s.store.nextFamilyId = none) ∧
      ∀ {env : Env} {start : StoreOptions} {w : W} {s : System W} {events : List (Event W)}
        {registered : UnorderedMap StorageBackendId (IBackend W)}
        {files : UnorderedMap Bytes Bytes},
        Run (fun s e s' => Step env Anything s e s' ∧ RestartsEmpty s e s')
          { System.fresh start registered w with files := files } events s →
        familiesCreated events < 2 ^ 64 → CreatesFresh s := by
  refine ⟨creates_fresh_iff, fun hrun hfamilies => (creates_fresh_iff _).mpr ?_⟩
  obtain ⟨n, hn, hnumbered⟩ := families_numbered_run hrun (by omega)
  exact Option.map_eq_none_iff.mp (hnumbered.fresh (by omega))

/-- A restart before the first family, and then two families. -/
def restartedEarly : List (Op MemoryWorld) :=
  [.saveState {}, .reopen {} ∅, .createFamily, .createFamily]

/-- A restart before the first family. -/
theorem create_family_fresh_restarted_early :
    CreatesFresh (sampleRun tagHash [] restartedEarly) := by
  have hrestarts : callsSatisfy (sampleEnv tagHash) RestartsEmpty (sampleSystem tagHash [])
      restartedEarly := by
    decide +kernel
  have hrun : Run (fun s e s' => Step (sampleEnv tagHash) Anything s e s' ∧ RestartsEmpty s e s')
      { System.fresh { chunkSize := 1 } (assign ⟨1⟩ (memoryBackend tagHash) ∅) {} with files := ∅ }
      (callEvents (sampleEnv tagHash) (sampleSystem tagHash []) restartedEarly)
      (sampleRun tagHash [] restartedEarly) := run_calls_where hrestarts
  exact create_family_fresh.2 hrun (by decide +kernel)

/-- After a restart `create_family` gives out the identity of the recovered family again, and that
family starts again with the first generation. -/
theorem family_id_given_twice :
    let s := sampleRun sha256Hash [] [.createFamily, .publish (sampleDescriptor 7 1 1) [0]]
    let s₁ := finalState (saveState (sampleEnv sha256Hash) {} s)
    ∃ s₂, reopenStore (sampleEnv sha256Hash) {} ∅ s₁ = .ok () s₂ ∧
      s₂.store.families.contains ⟨1⟩ = true ∧
      s₂.store.nextCheckpointGeneration.find ⟨1⟩ = some ⟨2⟩ ∧
      (∃ s₃, createFamily s₂ = .ok ⟨1⟩ s₃ ∧
        s₃.store.nextCheckpointGeneration.find ⟨1⟩ = some ⟨1⟩) ∧ ¬ CreatesFresh s₂ := by
  intro s s₁
  have hkeyed : WellKeyed s.store :=
    well_keyed_run (well_keyed_create _ _) (run_calls _ Anything (sampleSystem sha256Hash []) _)
  have hstate : Recoverable .nanoseconds s.store ∧ s.store.options.statePath = [] ∧
      (reloaded .nanoseconds s.store {} ∅).families.contains ⟨1⟩ = true ∧
      (reloaded .nanoseconds s.store {} ∅).nextCheckpointGeneration.find ⟨1⟩ = some ⟨2⟩ := by
    decide +kernel
  obtain ⟨hrecoverable, hpath, hfamily, hnext⟩ := hstate
  have hreopen := reopen_saved_returns hkeyed (save_state_returns (sampleEnv sha256Hash) s)
    (show ({} : StoreOptions).statePath = _ from hpath.symm) ∅ hrecoverable
  refine ⟨_, hreopen, hfamily, hnext, ⟨_, rfl, rfl⟩, fun hfresh => ?_⟩
  have hfree := (creates_fresh_iff _).mp hfresh
  have habsent : (reloaded .nanoseconds s.store {} ∅).families.contains ⟨1⟩ = false :=
    contains_eq_false_iff.mpr hfree
  exact absurd hfamily (habsent ▸ Bool.false_ne_true)

end Runs

end CheckpointStore
