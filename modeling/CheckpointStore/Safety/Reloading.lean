import CheckpointStore.Persistence.Parsing
import CheckpointStore.Safety.Recovered

/-!
# What a load depends on and what it checks

A load keeps two things of the store before it: the dedup table, into which the entries of the file
are inserted, and the next generations, which are raised and advanced. Two stores that load one
file therefore end up with the same records exactly when both refuse it for its dedup entries, or
when these two parts were the same as far as the file leaves them alone (`SameResidue`). A store
that has loaded a file with a dedup entry cannot load it again (`reload_throws`).

A load checks every record by itself and no record against another. What it leaves out is
`StateBody.CrossChecked`, and the loaded store is well formed exactly when the file passes it.
-/

namespace CheckpointStore

open Foundation Foundation.Procedure Foundation.UnorderedMap

variable {W : Type}

/-- The same families, checkpoints, blobs, replicas, placements, policies, next generations, dedup
entries and counters. -/
structure SameRecords (a b : Store W) : Prop where
  families : ∀ id, a.families.find id = b.families.find id
  checkpoints : ∀ id, a.checkpoints.find id = b.checkpoints.find id
  blobs : ∀ id, a.blobs.find id = b.blobs.find id
  replicas : ∀ id, a.replicas.find id = b.replicas.find id
  placements : ∀ id, a.placements.find id = b.placements.find id
  retention : ∀ id, a.retention.find id = b.retention.find id
  nextGenerations : ∀ id,
    a.nextCheckpointGeneration.find id = b.nextCheckpointGeneration.find id
  dedup : ∀ d, a.dedup.find d = b.dedup.find d
  counters : a.counters = b.counters

/-! ## The next generations after a load -/

section NextGenerations

variable {id : CheckpointFamilyId} {recs : List CheckpointRecord} {g g' : CheckpointGeneration}
  {next next' : UnorderedMap CheckpointFamilyId CheckpointGeneration}

/-- A record that is as high as both generations raises them to the same. -/
theorem raised_to_eq_iff : raisedTo id recs g = raisedTo id recs g' ↔
    g = g' ∨ ∃ rec ∈ recs, rec.descriptor.familyId = id ∧
      g.value ≤ rec.descriptor.generation.value ∧ g'.value ≤ rec.descriptor.generation.value := by
  -- A generation that some record reaches is raised to no more than the other one.
  have hmono : ∀ g g' : CheckpointGeneration, (∃ rec ∈ recs, rec.descriptor.familyId = id ∧
      g.value ≤ rec.descriptor.generation.value) →
      (raisedTo id recs g).value ≤ (raisedTo id recs g').value := by
    rintro g g' ⟨rec, hrec, hnames, hle⟩
    obtain ⟨-, -, hfrom⟩ := raised_to_spec id recs g
    obtain ⟨-, hall, -⟩ := raised_to_spec id recs g'
    rcases hfrom with heq | ⟨rec', hrec', hnames', heq⟩
    · rw [heq]
      exact UInt64.le_trans hle (hall rec hrec hnames)
    · rw [← heq]
      exact hall rec' hrec' hnames'
  constructor
  · intro heq
    obtain ⟨hle, -, hfrom⟩ := raised_to_spec id recs g
    obtain ⟨hle', -, hfrom'⟩ := raised_to_spec id recs g'
    rcases hfrom with hsame | ⟨rec, hrec, hnames, hgen⟩
    · rcases hfrom' with hsame' | ⟨rec, hrec, hnames, hgen⟩
      · exact .inl (by rw [← hsame, heq, hsame'])
      · exact .inr ⟨rec, hrec, hnames, by rw [hgen, ← heq]; exact hle, by rw [hgen]; exact hle'⟩
    · exact .inr ⟨rec, hrec, hnames, by rw [hgen]; exact hle, by rw [hgen, heq]; exact hle'⟩
  · rintro (rfl | ⟨rec, hrec, hnames, hle, hle'⟩)
    · rfl
    · have hvalue := UInt64.le_antisymm (hmono g g' ⟨rec, hrec, hnames, hle⟩)
        (hmono g' g ⟨rec, hrec, hnames, hle'⟩)
      cases hg : raisedTo id recs g
      cases hg' : raisedTo id recs g'
      rw [hg, hg'] at hvalue
      exact congrArg _ hvalue

/-- The next generations of two stores are the same after a load of the file, for a family that the
file does not list: they were the same before, or a record of the family raises both to the same.
A family without a next generation is raised from the default one. -/
def StateBody.RaisesAlike (b : StateBody) (id : CheckpointFamilyId)
    (next next' : UnorderedMap CheckpointFamilyId CheckpointGeneration) : Prop :=
  next.find id = next'.find id ∨
    ∃ rec ∈ b.records, rec.descriptor.familyId = id ∧
      ((next.find id).getD {} = (next'.find id).getD {} ∨
        ((next.find id).getD {}).value ≤ rec.descriptor.generation.value ∧
        ((next'.find id).getD {}).value ≤ rec.descriptor.generation.value)

/-- A file leaves the next generations of two stores the same exactly for the families that it
lists and those that it raises alike. -/
theorem next_generations_eq_iff {b : StateBody} :
    (b.nextGenerations next).find id = (b.nextGenerations next').find id ↔
      (∃ f ∈ b.families, f.id = id) ∨ b.RaisesAlike id next next' := by
  have hnext : Function.Injective (fun ng : CheckpointGeneration => ng.next) := by
    intro g g' heq
    cases g
    cases g'
    simpa [BasicGeneration.next] using heq
  unfold StateBody.nextGenerations StateBody.RaisesAlike
  rw [find_map_values, find_map_values, (Option.map_injective hnext).eq_iff, find_raise_all,
    find_raise_all, find_first_generations, find_first_generations]
  by_cases hlisted : ∃ f ∈ b.families, f.id = id
  · simp only [if_pos hlisted]
    exact iff_of_true trivial (.inl hlisted)
  · simp only [hlisted, false_or]
    split
    · next hnamed =>
        rw [Option.some.injEq, raised_to_eq_iff]
        constructor
        · rintro (hsame | ⟨rec, hrec, hnames, hle⟩)
          · obtain ⟨rec, hrec, hnames⟩ := hnamed
            exact .inr ⟨rec, hrec, hnames, .inl hsame⟩
          · exact .inr ⟨rec, hrec, hnames, .inr hle⟩
        · rintro (hsame | ⟨rec, hrec, hnames, hsame | hle⟩)
          · exact .inl (by rw [hsame])
          · exact .inl hsame
          · exact .inr ⟨rec, hrec, hnames, hle⟩
    · next hunnamed =>
        refine ⟨.inl, fun h => h.resolve_right ?_⟩
        rintro ⟨rec, hrec, hnames, -⟩
        exact hunnamed ⟨rec, hrec, hnames⟩

end NextGenerations

/-! ## Two loads of one file -/

theorem dedup_table_enters : EntersIn DedupTable.entries (fun e : DedupEntry => e.digest)
    fun e t => t.insertBlobEntryDirect e :=
  fun e t _ d => DedupTable.find_insert_blob_entry_direct t e d

/-- The parts of two stores that a load does not reset are the same, as far as the file leaves them
alone: the dedup tables, and the next generations of the families that the file does not list. -/
structure SameResidue (b : StateBody) (st st' : Store W) : Prop where
  dedup : ∀ d, st.dedup.find d = st'.dedup.find d
  next : ∀ id, (∀ f ∈ b.families, f.id ≠ id) →
    b.RaisesAlike id st.nextCheckpointGeneration st'.nextCheckpointGeneration

section TwoLoads

variable {b : StateBody} {st st' : Store W}

/-- Entering the entries of a file keeps what the tables have beside them. -/
theorem dedup_table_eq_iff (hdistinct : b.Distinct) (hfresh : b.Fresh st.dedup)
    (hfresh' : b.Fresh st'.dedup) :
    (∀ d, (b.dedupTable st.dedup).find d = (b.dedupTable st'.dedup).find d) ↔
      ∀ d, st.dedup.find d = st'.dedup.find d := by
  have hnodup := hdistinct.2.2.2.2.2.2
  have hentered := find_enter_all_cases dedup_table_enters hnodup hfresh
  have hentered' := find_enter_all_cases dedup_table_enters hnodup hfresh'
  refine forall_congr' fun d => ?_
  by_cases hd : ∃ e ∈ b.dedup, e.digest = d
  · obtain ⟨e, he, rfl⟩ := hd
    exact iff_of_true ((hentered.1 e he).trans (hentered'.1 e he).symm)
      ((hfresh e he).trans (hfresh' e he).symm)
  · have hother : ∀ e ∈ b.dedup, e.digest ≠ d := fun e he heq => hd ⟨e, he, heq⟩
    rw [show (b.dedupTable st.dedup).find d = st.dedup.find d from hentered.2 d hother,
      show (b.dedupTable st'.dedup).find d = st'.dedup.find d from hentered'.2 d hother]

/-- Two stores that take a file end up with the same records exactly when what the load does not
reset was the same. -/
theorem rebuild_same_iff (hdistinct : b.Distinct) (hfresh : b.Fresh st.dedup)
    (hfresh' : b.Fresh st'.dedup) :
    SameRecords (b.rebuild st) (b.rebuild st') ↔ SameResidue b st st' := by
  constructor
  · intro h
    refine ⟨(dedup_table_eq_iff hdistinct hfresh hfresh').mp h.dedup, fun id hunlisted => ?_⟩
    refine (next_generations_eq_iff.mp (h.nextGenerations id)).resolve_left ?_
    rintro ⟨f, hf, heq⟩
    exact hunlisted f hf heq
  · intro h
    have hdedup := (dedup_table_eq_iff hdistinct hfresh hfresh').mpr h.dedup
    have hentries := reordered_of_find_eq hdedup
    have hsize : (b.dedupTable st.dedup).size = (b.dedupTable st'.dedup).size := hentries.size_eq
    have hbytes : (b.dedupTable st.dedup).uniquePhysicalBytes =
        (b.dedupTable st'.dedup).uniquePhysicalBytes :=
      hentries.values_perm.foldl_eq' (fun _ _ _ _ total => by ac_rfl) 0
    refine ⟨fun _ => rfl, fun _ => rfl, fun _ => rfl, fun _ => rfl, fun _ => rfl, fun _ => rfl,
      fun id => next_generations_eq_iff.mpr ?_, hdedup, ?_⟩
    · by_cases hlisted : ∃ f ∈ b.families, f.id = id
      · exact .inl hlisted
      · exact .inr (h.next id fun f hf heq => hlisted ⟨f, hf, heq⟩)
    · simp only [StateBody.rebuild, recomputeCounters, StateBody.tables, StateHeader.assign,
        resetForLoad, hsize, hbytes]
      rfl

end TwoLoads

theorem parsed_file_distinct {env : Env} {s : System W} {b : StateBody}
    (h : parsedFile env s = some b) : b.Distinct := by
  obtain ⟨body, -, hbody⟩ := Option.bind_eq_some_iff.mp h
  exact (parse_body_eq_some_iff.mp hbody).1

/-- A load that does not return throws. -/
theorem load_state_throws_iff {env : Env} {s : System W} {b : StateBody}
    (hparse : parsedFile env s = some b) :
    (∃ e, thrown (loadState env s) = some e) ↔ ¬ b.Fresh s.store.dedup := by
  cases hrun : loadState env s with
  | ok u t =>
      obtain ⟨b', hparse', hfresh, -⟩ := load_state_ok_iff.mp hrun
      rw [hparse, Option.some.injEq] at hparse'
      subst hparse'
      simp [hfresh]
  | error e t =>
      refine iff_of_true ⟨e, rfl⟩ fun hfresh => ?_
      rw [load_state_ok_iff.mpr ⟨b, hparse, hfresh, rfl⟩] at hrun
      cases hrun

/-- Two stores with one state path and the same file there either both fail to load it, or both
load it and have the same records, exactly when the file does not parse, or both dedup tables have
a digest of the file, or neither has and the parts that a load does not reset are the same. -/
theorem load_depends_on_file (env : Env) {s s' : System W}
    (hpath : s'.store.options.statePath = s.store.options.statePath)
    (hfile : s'.files.find s.store.options.statePath = s.files.find s.store.options.statePath) :
    (((∃ e, thrown (loadState env s) = some e) ∧ ∃ e, thrown (loadState env s') = some e) ∨
      ∃ t t', loadState env s = .ok () t ∧ loadState env s' = .ok () t' ∧
        SameRecords t.store t'.store) ↔
    ∀ b, parsedFile env s = some b →
      (¬ b.Fresh s.store.dedup ∧ ¬ b.Fresh s'.store.dedup) ∨
      (b.Fresh s.store.dedup ∧ b.Fresh s'.store.dedup ∧ SameResidue b s.store s'.store) := by
  have hsame : parsedFile env s' = parsedFile env s := by
    unfold parsedFile acceptedBody
    rw [hpath, hfile]
  cases hparse : parsedFile env s with
  | none =>
      have hthrows : ∀ s : System W, parsedFile env s = none →
          ∃ e, thrown (loadState env s) = some e := by
        intro s hnone
        cases hrun : loadState env s with
        | ok u t =>
            obtain ⟨b, hparse, -⟩ := load_state_ok_iff.mp hrun
            rw [hnone] at hparse
            cases hparse
        | error e t => exact ⟨e, rfl⟩
      exact iff_of_true (.inl ⟨hthrows s hparse, hthrows s' (hsame.trans hparse)⟩) (by simp)
  | some b =>
      have hdistinct := parsed_file_distinct hparse
      rw [load_state_throws_iff hparse, load_state_throws_iff (hsame.trans hparse)]
      simp only [load_state_ok_iff, hsame, hparse, Option.some.injEq, forall_eq',
        exists_eq_left']
      refine or_congr_right ?_
      constructor
      · rintro ⟨_, _, ⟨hfresh, rfl⟩, ⟨hfresh', rfl⟩, hrecords⟩
        exact ⟨hfresh, hfresh', (rebuild_same_iff hdistinct hfresh hfresh').mp hrecords⟩
      · rintro ⟨hfresh, hfresh', hresidue⟩
        exact ⟨_, _, ⟨hfresh, rfl⟩, ⟨hfresh', rfl⟩,
          (rebuild_same_iff hdistinct hfresh hfresh').mpr hresidue⟩

/-- A saved file with one family. -/
def savedFiles (H : StreamHash) : UnorderedMap Bytes Bytes :=
  (sampleRun H [] [.createFamily, .saveState {}]).files

/-- Two stores with different policies. -/
theorem load_depends_on_file_other_policy :
    let policy : RetentionPolicy := { id := ⟨1⟩, familyId := ⟨1⟩ }
    let s := { sampleSystem tagHash [] with files := savedFiles tagHash }
    let s' := callAll (sampleEnv tagHash) s [.setRetentionPolicy policy]
    s.store.retention.size = 0 ∧ s'.store.retention.size = 1 ∧
      thrown (loadState (sampleEnv tagHash) s) = none ∧
      ∃ t t', loadState (sampleEnv tagHash) s = .ok () t ∧
        loadState (sampleEnv tagHash) s' = .ok () t' ∧ SameRecords t.store t'.store := by
  intro policy s s'
  have hstate : s.store.retention.size = 0 ∧ s'.store.retention.size = 1 ∧
      thrown (loadState (sampleEnv tagHash) s) = none := by
    decide +kernel
  obtain ⟨hnone, hone, hloads⟩ := hstate
  refine ⟨hnone, hone, hloads, ?_⟩
  clear hnone hone
  have hempty : ∀ (b : StateBody), b.Fresh s.store.dedup := fun _ _ _ => rfl
  clear_value s
  have hsame := (@load_depends_on_file _ (sampleEnv tagHash) s s' rfl rfl).mpr
    fun b _ => .inr ⟨hempty b, hempty b, fun _ => rfl, fun _ _ => .inl rfl⟩
  refine hsame.resolve_left ?_
  rintro ⟨⟨e, he⟩, -⟩
  rw [hloads] at he
  cases he

theorem reopen_store_eq (env : Env) (options : StoreOptions)
    (backends : UnorderedMap StorageBackendId (IBackend W)) (s : System W) :
    reopenStore env options backends s =
      loadState env { s with store := Store.create options backends } := rfl

/-- A store that has loaded a file with a dedup entry cannot load it again. -/
theorem reload_throws {env : Env} {s t : System W} (hload : loadState env s = .ok () t)
    (hempty : ∀ d, s.store.dedup.find d = none) {d : Digest} {entry : DedupEntry}
    (hentry : t.store.dedup.find d = some entry) : ∃ e, thrown (loadState env t) = some e := by
  obtain ⟨b, hparse, hfresh, rfl⟩ := load_state_ok_iff.mp hload
  refine (@load_state_throws_iff W env { s with store := b.rebuild s.store } b hparse).mpr
    fun hagain => ?_
  obtain ⟨hmem, rfl⟩ := mem_of_find_enter_all dedup_table_enters
    (parsed_file_distinct hparse).2.2.2.2.2.2 hempty hentry
  have hnone := hagain entry hmem
  rw [hentry] at hnone
  cases hnone

/-- One checkpoint with one chunk is enough for a file that cannot be loaded twice. -/
theorem saved_state_not_loaded_twice :
    let env := sampleEnv sha256Hash
    let s := sampleRun sha256Hash [] [.createFamily, .publish (sampleDescriptor 7 1 1) [5]]
    ∃ s₂, reopenStore env s.store.options s.store.backends (finalState (saveState env {} s)) =
        .ok () s₂ ∧ ∃ e, thrown (loadState env s₂) = some e := by
  intro env s
  have hkeyed : WellKeyed s.store :=
    well_keyed_run (well_keyed_create _ _) (run_calls _ Anything (sampleSystem sha256Hash []) _)
  have hstate : Recoverable .nanoseconds s.store ∧ s.store.dedup.entries.entries ≠ [] := by
    decide +kernel
  have hload := reopen_saved_returns hkeyed (save_state_returns env s) rfl s.store.backends
    hstate.1
  have hreproduces : Reproduces env.period s.store
      (reloaded env.period s.store s.store.options s.store.backends) :=
    recovered_reproduces env.period hkeyed fun _ => rfl
  obtain ⟨entry, hentry⟩ := List.exists_mem_of_ne_nil _ hstate.2
  have hfind : s.store.dedup.find entry.1 = some entry.2 := find_eq_some_iff.mpr hentry
  refine ⟨_, hload, ?_⟩
  rw [reopen_store_eq] at hload
  exact reload_throws hload (fun _ => rfl) ((hreproduces.dedup _).trans hfind)

/-! ## Well-formed families -/

/-- Every checkpoint is listed by its family, every listed checkpoint is there and belongs to the
family, and the generations of a family increase along its list. -/
structure WellFormed (store : Store W) : Prop where
  filed : ∀ id rec, store.checkpoints.find id = some rec →
    ∃ f, store.families.find rec.descriptor.familyId = some f ∧ id ∈ f.checkpointIds
  listed : ∀ id f, store.families.find id = some f → ∀ c ∈ f.checkpointIds,
    ∃ rec, store.checkpoints.find c = some rec ∧ rec.descriptor.familyId = id
  increasing : ∀ id f, store.families.find id = some f →
    f.checkpointIds.Pairwise fun c c' => ∀ rec rec', store.checkpoints.find c = some rec →
      store.checkpoints.find c' = some rec' →
      rec.descriptor.generation.precedes rec'.descriptor.generation = true

/-- What the file holds of a store decides whether it is well formed. -/
theorem Reproduces.well_formed {period : ClockPeriod} {saved store : Store W}
    (h : Reproduces period saved store) (hsaved : WellFormed saved) : WellFormed store where
  filed id rec hrec := by
    rw [h.checkpoints, Option.map_eq_some_iff] at hrec
    obtain ⟨rec', hrec', rfl⟩ := hrec
    rw [h.families]
    exact hsaved.filed id rec' hrec'
  listed id f hf c hc := by
    rw [h.families] at hf
    obtain ⟨rec, hrec, hfamily⟩ := hsaved.listed id f hf c hc
    exact ⟨rec.truncated period, by rw [h.checkpoints, hrec]; rfl, hfamily⟩
  increasing id f hf := by
    rw [h.families] at hf
    refine (hsaved.increasing id f hf).imp fun {c c'} hcc' rec rec' hrec hrec' => ?_
    rw [h.checkpoints, Option.map_eq_some_iff] at hrec hrec'
    obtain ⟨r, hr, rfl⟩ := hrec
    obtain ⟨r', hr', rfl⟩ := hrec'
    exact hcc' r r' hr hr'

/-- Sound books of families that are not too long are well formed. -/
theorem Books.Sound.well_formed {store : Store W} (h : store.books.Sound)
    (hlength : ∀ id f, store.families.find id = some f → f.checkpointIds.length < 2 ^ 64) :
    WellFormed store := by
  have hmembers : ∀ {id f}, store.families.find id = some f →
      store.books.members id = some f.checkpointIds := by
    intro id f hf
    rw [books_members, hf]
    rfl
  refine ⟨fun id rec hrec => ?_, fun id f hf c hc => ?_, fun id f hf => ?_⟩
  · have hd : store.books.descriptor id = some rec.descriptor := by
      rw [books_descriptor, hrec]
      rfl
    obtain ⟨ids, hids, hin⟩ := h.listed id _ hd
    obtain ⟨f, hf, rfl⟩ := Option.map_eq_some_iff.mp hids
    exact ⟨f, hf, hin⟩
  · obtain ⟨i, hi⟩ := List.mem_iff_getElem?.mp hc
    obtain ⟨d, hd, hfamily, _⟩ := (h.consecutive id _ (hmembers hf)).generations i c hi
    obtain ⟨rec, hrec, rfl⟩ := Option.map_eq_some_iff.mp hd
    exact ⟨rec, hrec, hfamily⟩
  · -- The generation at position `i` is `i + 1`, and no position reaches the 64-bit limit.
    have hgeneration : ∀ i c rec, f.checkpointIds[i]? = some c →
        store.checkpoints.find c = some rec →
        rec.descriptor.generation = ⟨UInt64.ofNat (i + 1)⟩ := by
      intro i c rec hi hrec
      obtain ⟨d, hd, -, hgen⟩ := (h.consecutive id _ (hmembers hf)).generations i c hi
      rw [books_descriptor, hrec] at hd
      cases hd
      exact hgen
    rw [List.pairwise_iff_getElem]
    intro i j hi hj hij rec rec' hrec hrec'
    have hbound := hlength id f hf
    rw [hgeneration i _ rec (List.getElem?_eq_getElem hi) hrec,
      hgeneration j _ rec' (List.getElem?_eq_getElem hj) hrec']
    have hsize : UInt64.size = 2 ^ 64 := rfl
    simp only [BasicGeneration.precedes, decide_eq_true_eq, UInt64.lt_iff_toNat_lt]
    rw [UInt64.toNat_ofNat_of_lt' (by omega), UInt64.toNat_ofNat_of_lt' (by omega)]
    omega

/-- The check of records against each other that a load leaves out. Every record is listed by its
family, every listed record is there and belongs to the family, and the generations increase along
the list. -/
def StateBody.CrossChecked (b : StateBody) : Prop :=
  (∀ rec ∈ b.records, ∃ f ∈ b.families, f.id = rec.descriptor.familyId ∧
      rec.descriptor.id ∈ f.checkpointIds) ∧
    ∀ f ∈ b.families,
      (∀ c ∈ f.checkpointIds, ∃ rec ∈ b.records, rec.descriptor.id = c ∧
        rec.descriptor.familyId = f.id) ∧
      f.checkpointIds.Pairwise fun c c' => ∀ rec ∈ b.records, ∀ rec' ∈ b.records,
        rec.descriptor.id = c → rec'.descriptor.id = c' →
          rec.descriptor.generation.precedes rec'.descriptor.generation = true

instance (b : StateBody) : Decidable b.CrossChecked := by
  unfold StateBody.CrossChecked
  infer_instance

/-- A store that was made of a file is well formed exactly when the file passes the check. -/
theorem rebuild_well_formed_iff {b : StateBody} (hdistinct : b.Distinct) (store : Store W) :
    WellFormed (b.rebuild store) ↔ b.CrossChecked := by
  have hfamily : ∀ {id f}, (b.rebuild store).families.find id = some f ↔
      f ∈ b.families ∧ f.id = id := fun {id f} =>
    find_file_all_iff (fun f : FamilyRecord => f.id) hdistinct.1
  have hrecord : ∀ {id rec}, (b.rebuild store).checkpoints.find id = some rec ↔
      rec ∈ b.records ∧ rec.descriptor.id = id := fun {id rec} =>
    find_file_all_iff (fun r : CheckpointRecord => r.descriptor.id) hdistinct.2.1
  constructor
  · intro h
    refine ⟨fun rec hrec => ?_, fun f hf => ⟨fun c hc => ?_, ?_⟩⟩
    · obtain ⟨f, hf, hlisted⟩ := h.filed _ rec (hrecord.mpr ⟨hrec, rfl⟩)
      exact ⟨f, (hfamily.mp hf).1, (hfamily.mp hf).2, hlisted⟩
    · obtain ⟨rec, hrec, hof⟩ := h.listed _ f (hfamily.mpr ⟨hf, rfl⟩) c hc
      exact ⟨rec, (hrecord.mp hrec).1, (hrecord.mp hrec).2, hof⟩
    · refine (h.increasing _ f (hfamily.mpr ⟨hf, rfl⟩)).imp fun {c c'} hcc' => ?_
      rintro rec hrec rec' hrec' rfl rfl
      exact hcc' rec rec' (hrecord.mpr ⟨hrec, rfl⟩) (hrecord.mpr ⟨hrec', rfl⟩)
  · rintro ⟨hfiled, hfamilies⟩
    refine ⟨fun id rec hrec => ?_, fun id f hf c hc => ?_, fun id f hf => ?_⟩
    · obtain ⟨hmem, rfl⟩ := hrecord.mp hrec
      obtain ⟨f, hf, hid, hlisted⟩ := hfiled rec hmem
      exact ⟨f, hfamily.mpr ⟨hf, hid⟩, hlisted⟩
    · obtain ⟨hmem, rfl⟩ := hfamily.mp hf
      obtain ⟨rec, hrec, hid, hof⟩ := (hfamilies f hmem).1 c hc
      exact ⟨rec, hrecord.mpr ⟨hrec, hid⟩, hof⟩
    · obtain ⟨hmem, rfl⟩ := hfamily.mp hf
      refine (hfamilies f hmem).2.imp fun {c c'} hcc' rec rec' hrec hrec' => ?_
      obtain ⟨hin, hid⟩ := hrecord.mp hrec
      obtain ⟨hin', hid'⟩ := hrecord.mp hrec'
      exact hcc' rec hin rec' hin' hid hid'

/-- Recovered states are well formed exactly when the file passes the check that the load leaves
out, whatever bytes are accepted. The files that fresh stores save pass it, as long as they have
not loaded a file themselves and their family identities have not wrapped around. -/
theorem recovered_well_formed {env : Env} {s t : System W}
    (hload : loadState env s = .ok () t) :
    (∃ b, parsedFile env s = some b ∧ (WellFormed t.store ↔ b.CrossChecked)) ∧
      ∀ (saved : System W) (start : StoreOptions)
        (registered : UnorderedMap StorageBackendId (IBackend W)) (w : W)
        (files : UnorderedMap Bytes Bytes) (events : List (Event W)),
        (∀ d, s.store.dedup.find d = none) →
        Run (Step env Anything) { System.fresh start registered w with files := files } events
          saved →
        (∀ e ∈ events, e.reopens = false) → familiesCreated events ≤ 2 ^ 64 →
        s.files.find s.store.options.statePath =
          some (stateFrame env.hash (stateBody env.period saved.store)) →
        WellFormed t.store := by
  constructor
  · obtain ⟨b, hparse, -, rfl⟩ := load_state_ok_iff.mp hload
    exact ⟨b, hparse, rebuild_well_formed_iff (parsed_file_distinct hparse) s.store⟩
  · intro saved start registered w files events hempty hrun hreopen hfamilies hfile
    have hkeyed : WellKeyed saved.store :=
      well_keyed_run (well_keyed_create start registered) hrun
    obtain ⟨hrecoverable, rfl⟩ := (post_load_state env hkeyed hempty hfile).of_ok hload
    refine (recovered_reproduces env.period hkeyed hempty).well_formed
      ((sound_run hrun hreopen hfamilies).1.well_formed fun id f hf => ?_)
    have hfits : f.checkpointIds.length ≤ BinReader.maxRecords :=
      hrecoverable.1.families.2 id f hf
    exact Nat.lt_of_le_of_lt hfits (by decide)

/-- A family with two generations. -/
theorem recovered_well_formed_two_generations :
    let s := sampleRun tagHash [] twoGenerations
    ∃ s₂, reopenStore (sampleEnv tagHash) {} ∅ (finalState (saveState (sampleEnv tagHash) {} s)) =
        .ok () s₂ ∧ s₂.store.checkpoints.size = 2 ∧ WellFormed s₂.store := by
  intro s
  have hrun : Run (Step (sampleEnv tagHash) Anything)
      { System.fresh { chunkSize := 1 } (assign ⟨1⟩ (memoryBackend tagHash) ∅) {} with files := ∅ }
      (callEvents (sampleEnv tagHash) (sampleSystem tagHash []) twoGenerations) s :=
    run_calls (sampleEnv tagHash) Anything (sampleSystem tagHash []) twoGenerations
  have hstate : Recoverable .nanoseconds s.store ∧ s.store.options.statePath = [] ∧
      (reloaded .nanoseconds s.store {} ∅).checkpoints.size = 2 ∧
      (∀ e ∈ callEvents (sampleEnv tagHash) (sampleSystem tagHash []) twoGenerations,
        e.reopens = false) ∧
      familiesCreated (callEvents (sampleEnv tagHash) (sampleSystem tagHash []) twoGenerations) ≤
        2 ^ 64 := by
    decide +kernel
  obtain ⟨hrecoverable, hpath, hsize, hreopen, hfamilies⟩ := hstate
  have hpath' : ({} : StoreOptions).statePath = s.store.options.statePath := hpath.symm
  have hsave := save_state_returns (sampleEnv tagHash) s
  have hload := reopen_saved_returns (well_keyed_run (well_keyed_create _ _) hrun) hsave hpath' ∅
    hrecoverable
  refine ⟨_, hload, hsize, ?_⟩
  rw [reopen_store_eq] at hload
  refine (recovered_well_formed hload).2 s _ _ _ _ _ (fun _ => rfl) hrun hreopen hfamilies ?_
  have hfile := saved_file hsave
  rw [← hpath'] at hfile
  exact hfile

/-- A record without chunks, of the first family. -/
def emptyRecord (id generation : UInt64) : CheckpointRecord where
  descriptor := sampleDescriptor id generation 0
  manifest := { checkpointDigest := .zero, semanticDigest := .zero }

/-- A store whose family lists generation 2 before generation 1. -/
def regressedStore : Store MemoryWorld :=
  { Store.create {} ∅ with
    families := assign ⟨1⟩ { id := ⟨1⟩, checkpointIds := [⟨7⟩, ⟨8⟩] } ∅
    checkpoints := assign ⟨8⟩ (emptyRecord 8 1) (assign ⟨7⟩ (emptyRecord 7 2) ∅) }

/-- A file of any store with well-filed records is loaded, within the bounds of the reader. -/
theorem load_saved_returns (env : Env) {s : System W} {saved : Store W} (hkeyed : WellKeyed saved)
    (hrecoverable : Recoverable env.period saved)
    (hdedup : ∀ d, s.store.dedup.entries.find d = none)
    (hfile : s.files.find s.store.options.statePath =
      some (stateFrame env.hash (stateBody env.period saved))) :
    ∃ t, loadState env s = .ok () t ∧ Reproduces env.period saved t.store := by
  have hpost := post_load_state env hkeyed hdedup hfile
  cases hrun : loadState env s with
  | error e t => exact absurd hrecoverable (hpost.of_error hrun).1
  | ok _ t =>
      obtain ⟨-, rfl⟩ := hpost.of_ok hrun
      exact ⟨_, rfl, recovered_reproduces env.period hkeyed hdedup⟩

/-- A body with a generation regression and a correct checksum and digest is loaded. -/
theorem generation_regression_loaded :
    let env := sampleEnv sha256Hash
    let file := stateFrame env.hash (stateBody env.period regressedStore)
    ∃ t : System MemoryWorld,
      loadState env { System.fresh {} ∅ {} with files := assign [] file ∅ } = .ok () t ∧
        ¬ WellFormed t.store := by
  intro env file
  have hrecords : Filed (fun r : CheckpointRecord => r.descriptor.id)
      (assign ⟨8⟩ (emptyRecord 8 1) (assign ⟨7⟩ (emptyRecord 7 2) ∅)) := by
    refine Filed.assign (Filed.assign (filed_empty _) ?_) ?_ <;> rfl
  have hkeyed : WellKeyed regressedStore :=
    ⟨(filed_empty _).assign rfl, hrecords, filed_empty _, filed_empty _, filed_empty _,
      filed_empty _, filed_empty _⟩
  have hrecoverable : Recoverable .nanoseconds regressedStore := by decide +kernel
  have hfile : (assign [] file ∅ : UnorderedMap Bytes Bytes).find [] = some file := by
    rw [find_assign, if_pos rfl]
  obtain ⟨t, hload, hreproduces⟩ := load_saved_returns env
    (s := { System.fresh {} ∅ {} with files := assign [] file ∅ }) hkeyed hrecoverable
    (fun _ => rfl) hfile
  refine ⟨t, hload, fun hwell => ?_⟩
  have hpairs := hwell.increasing ⟨1⟩ { id := ⟨1⟩, checkpointIds := [⟨7⟩, ⟨8⟩] }
    (hreproduces.families _)
  have hprecedes := List.pairwise_pair.mp hpairs _ _ (hreproduces.checkpoints _)
    (hreproduces.checkpoints _)
  exact absurd hprecedes (by decide)

end CheckpointStore
