import CheckpointStore.Safety.Counters
import CheckpointStore.Safety.Integrity
import CheckpointStore.Safety.Restorable
import CheckpointStore.Store.Accounting

/-!
# How records lay out their checkpoints

A publication lays the chunks of its data end to end (`Rounds.spans`), and no later step, saves and
restarts included, changes what the record says about it (`Origin.laid`). So every record tiles the
data that was published (`manifests_tile_checkpoints`). What a descriptor declares about the size
is never compared with the data; where callers declare it correctly, all sizes agree
(`declared_sizes_agree`).
-/

namespace CheckpointStore

open Foundation Foundation.Procedure Foundation.UnorderedMap

variable {W : Type}

/-! ## The chunks of one publication -/

/-- The descriptor of a slice. -/
structure Spans (slice : ChunkSlice) (cd : ChunkDescriptor) : Prop where
  id : cd.id = chunkIdFromDigest slice.digest
  offset : cd.logicalOffset = slice.range.logicalOffset
  size : cd.logicalSize = slice.range.logicalSize
  physical : cd.physicalSize = byteSize slice.bytes

/-- The manifest entry of a slice. -/
def sliceEntry (slice : ChunkSlice) : ManifestEntry where
  chunkId := chunkIdFromDigest slice.digest
  logicalOffset := slice.range.logicalOffset

/-- The loop describes the slices in their order, whatever identities it draws. -/
theorem Rounds.spans {underlay : IBackend W} {done slices : List ChunkSlice} {p p' : Publishing W}
    (h : Rounds underlay slices p p') (hchunks : List.Forall₂ Spans done p.locals.chunkDescriptors)
    (hentries : p.locals.manifestEntries = done.map sliceEntry) :
    List.Forall₂ Spans (done ++ slices) p'.locals.chunkDescriptors ∧
      p'.locals.manifestEntries = (done ++ slices).map sliceEntry := by
  induction h generalizing done with
  | nil p => simpa using ⟨hchunks, hentries⟩
  | @cons slice rest p q p' blobId hacquired _ ih =>
      obtain ⟨hchunks', hentries', _⟩ := hacquired.locals_eq
      rw [List.append_cons]
      refine ih ?_ ?_
      · show List.Forall₂ Spans _ (q.locals.chunkDescriptors ++ [_])
        rw [hchunks']
        exact List.rel_append hchunks (.cons ⟨rfl, rfl, rfl, rfl⟩ .nil)
      · show q.locals.manifestEntries ++ [_] = _
        rw [hentries', hentries, List.map_append]
        rfl

/-- The integrity of a descriptor plays no role. -/
theorem spans_content {slices : List ChunkSlice} {chunks : List ChunkDescriptor} :
    List.Forall₂ Spans slices (chunks.map ChunkDescriptor.content) ↔
      List.Forall₂ Spans slices chunks := by
  rw [List.forall₂_map_right_iff]
  exact ⟨fun h => h.imp fun _ _ hcd => ⟨hcd.id, hcd.offset, hcd.size, hcd.physical⟩,
    fun h => h.imp fun _ _ hcd => ⟨hcd.id, hcd.offset, hcd.size, hcd.physical⟩⟩

/-! ## Records -/

/-- A record of the publication of `data` under the descriptor `d`. -/
structure Laid (H : StreamHash) (d : CheckpointDescriptor) (data : Bytes)
    (rec : CheckpointRecord) : Prop where
  declared : rec.descriptor.logicalSize = d.logicalSize
  size : rec.manifest.logicalSize = byteSize data
  digest : rec.manifest.checkpointDigest = H.sha256 data
  chunks : ∃ chunkSize slices, chunkStream H data chunkSize = .ok slices ∧
    List.Forall₂ Spans slices rec.chunks ∧ rec.manifest.chunks = slices.map sliceEntry

/-- The part of a record that says how the checkpoint is laid out. -/
def CheckpointRecord.layout (rec : CheckpointRecord) :
    UInt64 × CheckpointManifest × List ChunkDescriptor :=
  (rec.descriptor.logicalSize, rec.manifest, rec.chunks.map ChunkDescriptor.content)

section Records

variable {env : Env} {s s' : System W}

theorem Laid.transfer {d : CheckpointDescriptor} {data : Bytes} {rec rec' : CheckpointRecord}
    (h : Laid env.hash d data rec) (hlayout : rec'.layout = rec.layout) :
    Laid env.hash d data rec' := by
  obtain ⟨hdeclared, hrest⟩ := Prod.mk.inj hlayout
  obtain ⟨hmanifest, hchunks⟩ := Prod.mk.inj hrest
  obtain ⟨chunkSize, slices, hslices, hspans, hentries⟩ := h.chunks
  refine ⟨hdeclared.trans h.declared, by rw [hmanifest]; exact h.size,
    by rw [hmanifest]; exact h.digest, chunkSize, slices, hslices, ?_,
    by rw [hmanifest]; exact hentries⟩
  rw [← spans_content, hchunks, spans_content]
  exact hspans

/-- A publication enters such a record. -/
theorem Published.laid {d : CheckpointDescriptor} {data : Bytes} (h : Published env d data s s')
    (hlength : data.length < 2 ^ 64) :
    ∃ rec, s'.store.checkpoints.find d.id = some rec ∧ Laid env.hash d data rec := by
  cases h with
  | @intro underlay slices p w hadmitted hslices hrounds =>
      have hspans := @Rounds.spans W underlay [] slices _ p hrounds .nil rfl
      rw [List.nil_append] at hspans
      obtain ⟨hchunks, hentries⟩ := hspans
      have hfind := hrounds.find_published hadmitted.fresh env data d.id
      rw [if_pos rfl] at hfind
      refine ⟨_, hfind, rfl, rfl, rfl, _, slices, hslices, hchunks, ?_⟩
      show sortedEntries p.locals = _
      rw [sorted_entries_of_slices hentries hslices hlength, hentries]

/-- Until a restart a record keeps its layout. -/
theorem step_layout {e : Event W} (h : Step env Anything s e s') (hreopens : e.reopens = false)
    {id : CheckpointId} {rec : CheckpointRecord} (hfind : s.store.checkpoints.find id = some rec) :
    ∃ rec', s'.store.checkpoints.find id = some rec' ∧ rec'.layout = rec.layout := by
  cases step_transition (all_look_anything s) h with
  | quiet _ hsame =>
      have hcontent := hsame.checkpoints id
      rw [hfind] at hcontent
      obtain ⟨rec', hfind', hrec'⟩ := Option.map_eq_some_iff.mp hcontent
      refine ⟨rec', hfind', Prod.ext ?_ (Prod.ext ?_ ?_)⟩
      · exact (congrArg (fun r : CheckpointRecord => r.descriptor.logicalSize) hrec' :
          rec'.content.descriptor.logicalSize = rec.content.descriptor.logicalSize)
      · exact (congrArg CheckpointRecord.manifest hrec' :
          rec'.content.manifest = rec.content.manifest)
      · exact (congrArg CheckpointRecord.chunks hrec' :
          rec'.content.chunks = rec.content.chunks)
  | @published d data _ hpublished =>
      cases hpublished with
      | intro hadmitted _ hrounds =>
          refine ⟨rec, ?_, rfl⟩
          rw [hrounds.find_published hadmitted.fresh, if_neg, hfind]
          rintro rfl
          rw [hadmitted.fresh] at hfind
          cases hfind
  | publishFailed hfailed =>
      obtain ⟨_, _, _, _, _, hstore⟩ := hfailed.store_eq
      exact ⟨rec, by rw [hstore]; exact hfind, rfl⟩
  | gcRan hran =>
      have hlayout := hran.map_find (f := CheckpointRecord.layout) (fun _ => rfl) id
      rw [hfind] at hlayout
      exact Option.map_eq_some_iff.mp hlayout
  | reopened => simp [Event.reopens] at hreopens

/-- A record that comes from the publication of some data is laid out as that publication left
it. -/
theorem Origin.laid {start : System W} {events : List (Event W)} {id : CheckpointId} {data : Bytes}
    (h : Origin env start events s id data) (hkeyed : WellKeyed start.store)
    (hsizes : ∀ e ∈ events, ∀ publication ∈ e.publication, publication.2.length < 2 ^ 64) :
    ∃ rec d, s.store.checkpoints.find id = some rec ∧
      .call (.publish d data) none ∈ events ∧ Laid env.hash d data rec := by
  induction h with
  | @published events s s' d data _ hstep =>
      have hlast : Event.call (.publish d data) none ∈
          events ++ [.call (.publish d data) none] := by simp
      have hpublished : Published env d data s s' := by
        cases step_transition (all_look_anything s) hstep with
        | quiet hevent => cases hevent
        | published hpublished => exact hpublished
      obtain ⟨rec, hfind, hlaid⟩ := hpublished.laid (hsizes _ hlast (d, data) rfl)
      exact ⟨rec, d, hfind, hlast, hlaid⟩
  | @kept events s s' e id data _ hstep hreopens ih =>
      obtain ⟨rec, d, hfind, hin, hlaid⟩ := ih fun e hin =>
        hsizes e (List.mem_append_left _ hin)
      obtain ⟨rec', hfind', hlayout⟩ := step_layout hstep hreopens hfind
      exact ⟨rec', d, hfind', List.mem_append_left _ hin, hlaid.transfer hlayout⟩
  | @loaded events more s s₁ s₂ options backends thrown id data horigin _ hfile hstep hrecord ih =>
      obtain ⟨rec, d, hfind, hin, hlaid⟩ := ih fun e hin =>
        hsizes e (List.mem_append_left _ hin)
      have hfinal : s₂ = finalState (reopenStore env options backends s₁) := by
        cases hstep
        rfl
      obtain ⟨rec', hfind'⟩ := contains_iff.mp hrecord
      obtain ⟨raw, hraw, hsaved⟩ := record_of_reopened (hfinal ▸ hfind')
      rw [hfile] at hraw
      -- The file has the record of the earlier state, and reading it drops only a fraction of a
      -- time.
      obtain ⟨rec₀, hfind₀, rfl⟩ := hsaved s.store
        (well_keyed_run hkeyed (horigin.manifest hkeyed).1) (Option.some.inj hraw).symm
      rw [hfind] at hfind₀
      cases hfind₀
      exact ⟨_, d, hfind', List.mem_append_left _ hin, hlaid.transfer rfl⟩

end Records

/-! ## Tiling -/

/-- The chunks are laid end to end, the first one at `offset`. -/
def TilesFrom : Nat → List ChunkDescriptor → Prop
  | _, [] => True
  | offset, cd :: rest =>
      cd.logicalOffset.toNat = offset ∧ TilesFrom (offset + cd.logicalSize.toNat) rest

/-- The bytes of the chunks of a record. -/
def CheckpointRecord.storedBytes (rec : CheckpointRecord) : Nat :=
  (rec.chunks.map fun cd => cd.logicalSize.toNat).sum

/-- The manifest and the chunks of a record tile `data`. -/
structure Tiled (H : StreamHash) (data : Bytes) (rec : CheckpointRecord) : Prop where
  entries : rec.manifest.chunks =
    rec.chunks.map fun cd => { chunkId := cd.id, logicalOffset := cd.logicalOffset }
  offsets : TilesFrom 0 rec.chunks
  sizes : ∀ cd ∈ rec.chunks, cd.logicalSize = cd.physicalSize
  total : rec.storedBytes = rec.manifest.logicalSize.toNat
  length : rec.manifest.logicalSize.toNat = data.length
  digest : rec.manifest.checkpointDigest = H.sha256 data

section Tiling

variable {H : StreamHash} {slices : List ChunkSlice} {chunks : List ChunkDescriptor}

theorem Spans.size_to_nat {slice : ChunkSlice} {cd : ChunkDescriptor} (h : Spans slice cd)
    (hok : SliceOk H slice) : cd.logicalSize.toNat = slice.bytes.length := by
  rw [h.size, hok.size_eq, hok.length_eq]

/-- Descriptors of contiguous slices tile. -/
theorem tiles_of_spans (hspans : List.Forall₂ Spans slices chunks)
    (hok : ∀ slice ∈ slices, SliceOk H slice) {offset : Nat}
    (hcontiguous : Contiguous offset slices)
    (hroom : offset + (slices.map ChunkSlice.bytes).flatten.length < 2 ^ 64) :
    TilesFrom offset chunks := by
  induction hspans generalizing offset with
  | nil => trivial
  | @cons slice cd rest chunks hcd _ ih =>
      obtain ⟨hfirst, hrest⟩ := hcontiguous
      rw [List.map_cons, List.flatten_cons, List.length_append] at hroom
      refine ⟨?_, ?_⟩
      · rw [hcd.offset, hfirst, UInt64.toNat_ofNat', Nat.mod_eq_of_lt (by omega)]
      · rw [hcd.size_to_nat (hok slice (by simp))]
        exact ih (fun slice hin => hok slice (by simp [hin])) hrest (by omega)

/-- The sizes of the descriptors add up to the data. -/
theorem sum_of_spans (hspans : List.Forall₂ Spans slices chunks)
    (hok : ∀ slice ∈ slices, SliceOk H slice) :
    (chunks.map fun cd => cd.logicalSize.toNat).sum =
      (slices.map ChunkSlice.bytes).flatten.length := by
  induction hspans with
  | nil => rfl
  | @cons slice cd rest chunks hcd _ ih =>
      rw [List.map_cons, List.sum_cons, List.map_cons, List.flatten_cons, List.length_append,
        hcd.size_to_nat (hok slice (by simp)), ih fun slice hin => hok slice (by simp [hin])]

/-- What is laid out tiles the data. -/
theorem Laid.tiled {d : CheckpointDescriptor} {data : Bytes} {rec : CheckpointRecord}
    (h : Laid H d data rec) (hlength : data.length < 2 ^ 64) : Tiled H data rec := by
  obtain ⟨chunkSize, slices, hslices, hspans, hentries⟩ := h.chunks
  have hok : ∀ slice ∈ slices, SliceOk H slice := fun _ hin => chunk_stream_slice_ok hslices hin
  have hflatten := chunk_stream_flatten hslices
  have hsize : rec.manifest.logicalSize.toNat = data.length := by
    rw [h.size, byte_size_to_nat hlength]
  refine ⟨?_, tiles_of_spans hspans hok (chunk_stream_offsets hslices) ?_, fun cd hcd => ?_, ?_,
    hsize, h.digest⟩
  · rw [hentries, ← List.forall₂_eq_eq_eq, List.forall₂_map_left_iff, List.forall₂_map_right_iff]
    refine hspans.imp fun slice cd hcd => ?_
    rw [sliceEntry, hcd.id, hcd.offset]
  · rw [hflatten]
    omega
  · obtain ⟨slice, hin, hspan⟩ := exists_of_mem_left hspans.flip hcd
    rw [hspan.size, hspan.physical, (hok slice hin).size_eq]
  · rw [CheckpointRecord.storedBytes, sum_of_spans hspans hok, hflatten, hsize]

end Tiling

section Runs

variable {env : Env} {options : StoreOptions}
  {backends : UnorderedMap StorageBackendId (IBackend W)} {w : W}

/-- Every record comes from a publication and is laid out as that publication left it. -/
theorem record_laid {events : List (Event W)} {s : System W}
    (hrun : Run (Step env Anything) (.fresh options backends w) events s)
    (hsizes : ∀ e ∈ events, ∀ publication ∈ e.publication, publication.2.length < 2 ^ 64)
    {id : CheckpointId} {rec : CheckpointRecord} (hfind : s.store.checkpoints.find id = some rec) :
    (∃ data, Origin env (.fresh options backends w) events s id data) ∧
      ∀ data, Origin env (.fresh options backends w) events s id data →
        ∃ d, .call (.publish d data) none ∈ events ∧ Laid env.hash d data rec := by
  have hmanifest : s.store.manifest id = some rec.manifest :=
    Option.map_eq_some_iff.mpr ⟨rec, hfind, rfl⟩
  refine ⟨(attributed_run hrun).records id _ hmanifest, fun data horigin => ?_⟩
  obtain ⟨rec', d, hfind', hin, hlaid⟩ :=
    horigin.laid (well_keyed_create options backends) hsizes
  rw [hfind] at hfind'
  cases hfind'
  exact ⟨d, hin, hlaid⟩

/-- In every state of every run, restarts included, every record comes from a publication, and its
manifest and its chunks tile the data of that publication. The sizes of the data are 64-bit
numbers. -/
theorem manifests_tile_checkpoints {events : List (Event W)} {s : System W}
    (hrun : Run (Step env Anything) (.fresh options backends w) events s)
    (hsizes : ∀ e ∈ events, ∀ publication ∈ e.publication, publication.2.length < 2 ^ 64)
    {id : CheckpointId} {rec : CheckpointRecord} (hfind : s.store.checkpoints.find id = some rec) :
    (∃ data, Origin env (.fresh options backends w) events s id data) ∧
      ∀ data, Origin env (.fresh options backends w) events s id data →
        Tiled env.hash data rec := by
  obtain ⟨horigin, hlaid⟩ := record_laid hrun hsizes hfind
  refine ⟨horigin, fun data hdata => ?_⟩
  obtain ⟨d, hin, h⟩ := hlaid data hdata
  exact h.tiled (hsizes _ hin (d, data) rfl)

/-- The calls of a run that publishes two chunks. -/
def publishTwoChunks : List (Op MemoryWorld) := [.createFamily, twoChunks]

theorem publish_two_chunks_sized {e : Event MemoryWorld}
    (he : e ∈ callEvents (sampleEnv tagHash) (sampleSystem tagHash []) publishTwoChunks) :
    e.Sized := by
  obtain ⟨op, hop, outcome, rfl⟩ := op_of_mem_call_events he
  simp only [publishTwoChunks, List.mem_cons, List.not_mem_nil, or_false] at hop
  rcases hop with rfl | rfl
  · simp [Event.Sized, Event.publication]
  · intro published h
    cases h
    exact ⟨by decide, rfl⟩

theorem run_publish_two_chunks :
    Run (Step (sampleEnv tagHash) Anything) (sampleSystem tagHash [])
      (callEvents (sampleEnv tagHash) (sampleSystem tagHash []) publishTwoChunks)
      (sampleRun tagHash [] publishTwoChunks) :=
  run_calls _ _ _ _

/-- Two chunks tile the data they are cut from. -/
theorem manifests_tile_two_chunks :
    ∃ rec data, (sampleRun tagHash [] publishTwoChunks).store.checkpoints.find ⟨7⟩ = some rec ∧
      Tiled tagHash data rec := by
  have hcontains : (sampleRun tagHash [] publishTwoChunks).store.checkpoints.contains ⟨7⟩ =
      true := by decide +kernel
  obtain ⟨rec, hfind⟩ := contains_iff.mp hcontains
  obtain ⟨⟨data, hdata⟩, htiled⟩ := manifests_tile_checkpoints run_publish_two_chunks
    (fun _ he => (publish_two_chunks_sized he).length_lt) hfind
  exact ⟨rec, data, hfind, htiled data hdata⟩

/-! ## Declared sizes -/

/-- The bytes of the committed checkpoints. -/
def committedBytes (store : Store W) : Nat :=
  store.checkpoints.sumBy fun _ rec => if rec.lifecycle = .committed then rec.storedBytes else 0

/-- The plan of a restore expects what the descriptor declares. -/
theorem post_plan_restore_expected (id : CheckpointId) (priority : RestorePriority)
    (s : System W) :
    Post (planRestore id priority) s
      (fun plan _ => ∃ rec, s.store.checkpoints.find id = some rec ∧
        plan.expectedBytes = rec.descriptor.logicalSize)
      (fun _ _ => True) := by
  unfold planRestore
  rw [post_bind, post_get]
  cases hfind : s.store.checkpoints.find id with
  | none => trivial
  | some rec =>
      simp only [post_bind, post_next_id, post_modify_store, post_pure]
      exact ⟨rec, rfl, rfl⟩

/-- Where every publication declares the size of its data, the records do. -/
theorem record_sized {events : List (Event W)} {s : System W}
    (hrun : Run (Step env Anything) (.fresh options backends w) events s)
    (hsized : ∀ e ∈ events, e.Sized) {id : CheckpointId} {rec : CheckpointRecord}
    (hfind : s.store.checkpoints.find id = some rec) :
    ∃ data, Origin env (.fresh options backends w) events s id data ∧
      rec.descriptor.logicalSize = rec.manifest.logicalSize ∧ Tiled env.hash data rec := by
  have hsizes : ∀ e ∈ events, ∀ publication ∈ e.publication, publication.2.length < 2 ^ 64 :=
    fun e hin => (hsized e hin).length_lt
  obtain ⟨⟨data, hdata⟩, hlaid⟩ := record_laid hrun hsizes hfind
  obtain ⟨d, hin, h⟩ := hlaid data hdata
  refine ⟨data, hdata, ?_, h.tiled (hsizes _ hin (d, data) rfl)⟩
  rw [h.declared, h.size, (hsized _ hin (d, data) rfl).2]

/-- If every publication of a run declares the size of its data, then in its last state the sizes
in descriptors, manifests and chunks agree, plans expect what restores return, unless the hash
collides, and the logical bytes of the accounting are those of the committed checkpoints. -/
theorem declared_sizes_agree {events : List (Event W)} {s : System W}
    (hrun : Run (Step env Anything) (.fresh options backends w) events s)
    (hsized : ∀ e ∈ events, e.Sized) :
    (∀ id rec, s.store.checkpoints.find id = some rec →
      rec.descriptor.logicalSize = rec.manifest.logicalSize ∧
      rec.storedBytes = rec.manifest.logicalSize.toNat) ∧
    (∀ id priority restoreId plan s₁ restored s₂, planRestore id priority s = .ok plan s₁ →
      restore env restoreId id s = .ok restored s₂ →
      restored.bytes.length = plan.expectedBytes.toNat ∨
        ∃ data, Origin env (.fresh options backends w) events s id data ∧
          env.hash.Collides restored.bytes data) ∧
    (dedupAccounting s.store).logicalBytes = UInt64.ofNat (committedBytes s.store) := by
  refine ⟨fun id rec hfind => ?_,
    fun id priority restoreId plan s₁ restored s₂ hplan hrestore => ?_, ?_⟩
  · obtain ⟨data, _, hdeclared, htiled⟩ := record_sized hrun hsized hfind
    exact ⟨hdeclared, htiled.total⟩
  · obtain ⟨rec, hfind, hexpected⟩ := (post_plan_restore_expected id priority s).of_ok hplan
    obtain ⟨⟨rec', hfind', hdigest⟩, -⟩ := (post_restore_assembled restoreId id s).of_ok hrestore
    rw [hfind] at hfind'
    cases hfind'
    obtain ⟨data, hdata, hdeclared, htiled⟩ := record_sized hrun hsized hfind
    by_cases hbytes : restored.bytes = data
    · left
      rw [hexpected, hdeclared, htiled.length, hbytes]
    · exact Or.inr ⟨data, hdata, hbytes, hdigest.trans htiled.digest⟩
  · have hsum := UnorderedMap.foldl_values_eq_sum_by s.store.checkpoints fun rec =>
      if rec.lifecycle = .committed then rec.descriptor.logicalSize else 0
    refine hsum.trans (congrArg UInt64.ofNat (sum_by_congr fun id rec hfind => ?_))
    obtain ⟨data, _, hdeclared, htiled⟩ := record_sized hrun hsized hfind
    split
    · rw [hdeclared, htiled.total]
    · rfl

/-- The declared size is the size of the data. -/
theorem declared_sizes_agree_two_chunks :
    (dedupAccounting (sampleRun tagHash [] publishTwoChunks).store).logicalBytes =
      UInt64.ofNat (committedBytes (sampleRun tagHash [] publishTwoChunks).store) :=
  (declared_sizes_agree run_publish_two_chunks fun _ he => publish_two_chunks_sized he).2.2

/-- `publish` admits one byte of data under a descriptor that declares five. -/
theorem declared_size_unchecked :
    let env := sampleEnv sha256Hash
    let s := sampleRun sha256Hash [] [.createFamily, .publish (sampleDescriptor 7 1 5) [0]]
    ∃ events, Run (Step env Anything) (sampleSystem sha256Hash []) events s ∧
      (s.store.checkpoints.find ⟨7⟩).map (fun rec =>
        (rec.descriptor.logicalSize, rec.manifest.logicalSize, rec.storedBytes)) =
          some (5, 1, 1) ∧
      (returned (planRestore ⟨7⟩ .normal s)).map RestorePlan.expectedBytes = some 5 ∧
      (returned (restore env ⟨1⟩ ⟨7⟩ s)).map (fun restored => restored.bytes) = some [0] ∧
      (dedupAccounting s.store).logicalBytes = 5 ∧ committedBytes s.store = 1 :=
  ⟨_, run_calls (sampleEnv sha256Hash) Anything (sampleSystem sha256Hash []) _, by
    decide +kernel⟩

end Runs

end CheckpointStore
