import CheckpointStore.Safety.Rollback

/-!
# Entries and their objects

Over a lawful backend whose `remove` works, an entry of the dedup table has its object, with one
exception. A rollback removes the objects it has written but releases only one reference for
each, so an entry that the failed publication had counted twice stays without its object.
`entries_held_iff` says that along whole runs this is the only way to lose the agreement.
-/

namespace CheckpointStore

open Foundation Foundation.Procedure

variable {W : Type}

/-- Every entry of the dedup table has its object. -/
def EntriesHeld (H : StreamHash) (view : ObjectView W) (s : System W) : Prop :=
  ∀ d e, s.store.dedup.find d = some e →
    HeldBy H view (fun _ => True) s.world d e.physicalSize

/-- If the event is a failed publication, then no digest that had no entry before occurs twice
among the chunks it had stored. -/
def FailsCleanly (env : Env) (s : System W) (e : Event W) (s' : System W) : Prop :=
  match e with
  | .call (.publish _ data) (some _) => ∀ slice ∈ storedChunks env data s s',
      s.store.dedup.find slice.digest = none →
        occurrences slice.digest (storedChunks env data s s') ≤ 1
  | _ => True

instance (env : Env) (s : System W) (e : Event W) (s' : System W) :
    Decidable (FailsCleanly env s e s') := by
  unfold FailsCleanly
  split <;> infer_instance

section Entries

variable {H : StreamHash} {b : IBackend W} {view : ObjectView W} {d : Digest} {s s' : System W}

theorem EntriesHeld.intact (h : EntriesHeld H view s) (hfind : s.store.dedup.find d ≠ none) :
    Intact H view d s := by
  obtain ⟨e, he⟩ := Option.ne_none_iff_exists'.mp hfind
  exact ⟨e, he, h d e he⟩

theorem Intact.held (h : Intact H view d s) {e : DedupEntry}
    (hfind : s.store.dedup.find d = some e) :
    HeldBy H view (fun _ => True) s.world d e.physicalSize := by
  obtain ⟨e', hfind', hheld⟩ := h
  rw [hfind] at hfind'
  cases hfind'
  exact hheld

/-- Entry and object decide whether a digest is intact. -/
theorem Intact.transfer (h : Intact H view d s)
    (hfind : s'.store.dedup.find d = s.store.dedup.find d)
    (hobject : view.objects s'.world (blobKey d) = view.objects s.world (blobKey d)) :
    Intact H view d s' := by
  obtain ⟨e, he, hheld⟩ := h
  exact ⟨e, hfind.trans he, (held_by_congr hobject _).mpr hheld⟩

/-- The rounds of a publication keep every entry with its object. -/
theorem Rounds.entries_held (hb : b.Lawful H view) {slices : List ChunkSlice}
    {p p' : Publishing W} (h : Rounds b slices p p') (hok : ∀ slice ∈ slices, SliceOk H slice)
    (hp : EntriesHeld H view p.system) : EntriesHeld H view p'.system := by
  intro d e hfind
  refine Intact.held ?_ hfind
  by_cases hbefore : p.system.store.dedup.find d = none
  · by_cases hd : ∃ slice ∈ slices, slice.digest = d
    · exact (h.written_absent hb hok hbefore hd).2.1
    · have hnone := (h.raised_elsewhere hb fun slice hin heq => hd ⟨slice, hin, heq⟩).find_none_iff
      rw [hnone.mpr hbefore] at hfind
      simp at hfind
  · have hintact := hp.intact hbefore
    exact (h.raised_intact hb hintact).intact hintact

/-- After a rollback a digest that was written once has no entry unless it was counted again. -/
theorem find_rolled_back_once {digests : List Digest} {t : DedupTable}
    (hcount : digests.count d = 1) :
    (rolledBack digests t).find d = none ↔ (t.refcount d).toNat ≤ 1 := by
  have hmem : d ∈ digests := List.count_pos_iff.mp (by omega)
  obtain ⟨before, after, rfl⟩ := List.append_of_mem hmem
  rw [List.count_append, List.count_cons_self] at hcount
  have hbefore : d ∉ before := List.count_eq_zero.mp (by omega)
  have hafter : d ∉ after := List.count_eq_zero.mp (by omega)
  -- Only the middle step concerns the digest.
  let t₁ := rolledBack before t
  have hsplit : rolledBack (before ++ d :: after) t = rolledBack after (rollbackDigest d t₁) := by
    unfold t₁ rolledBack
    rw [List.foldl_append, List.foldl_cons]
  have hrefcount : t₁.refcount d = t.refcount d := by
    unfold DedupTable.refcount
    rw [find_rolled_back_of_not_mem hbefore]
  have hreleased := DedupTable.refcount_release_reference t₁ d d
  rw [if_pos rfl, hrefcount] at hreleased
  rw [hsplit, find_rolled_back_of_not_mem hafter, rollbackDigest,
    DedupTable.find_release_until_orphan]
  by_cases hzero : (t₁.releaseReference d).2.refcount d = 0
  · rw [hzero] at hreleased
    have h0 : (0 : UInt64).toNat = 0 := rfl
    rw [if_pos ⟨rfl, hzero⟩]
    exact ⟨fun _ => by omega, fun _ => rfl⟩
  · obtain ⟨e, he⟩ := DedupTable.find_of_refcount_ne_zero hzero
    have hpositive : ((t₁.releaseReference d).2.refcount d).toNat ≠ 0 :=
      fun h0 => hzero (UInt64.toNat_inj.mp h0)
    rw [if_neg fun h => hzero h.2, he]
    exact ⟨fun h => by simp at h, fun h => by omega⟩

/-- When removing succeeds, the removed objects are gone. -/
theorem Removals.removed (hb : b.Lawful H view) (hremoves : b.Removes view)
    {keys : List BackendKey} {w w' : W} (h : Removals b keys w w') {key : BackendKey}
    (hkey : key ∈ keys) : view.objects w' key = none := by
  induction h with
  | nil w => simp at hkey
  | @cons removed rest w w' hrest ih =>
      rcases List.mem_cons.mp hkey with rfl | hlater
      · have hgone : view.objects (finalState (b.remove key w)) key = none := by
          by_cases hpresent : view.objects w key = none
          · rcases (Removals.cons (.nil _) : Removals b [key] w _).objects hb key with h | h
            · exact h.trans hpresent
            · exact h.2
          · obtain ⟨w₁, hrun⟩ := hremoves key w hpresent
            have hobjects := (hb.remove _ _).of_ok hrun
            rw [if_pos rfl] at hobjects
            rw [hrun, final_state_ok, hobjects, Function.update_self]
        rcases hrest.objects hb key with hsame | ⟨_, hnone⟩
        · exact hsame.trans hgone
        · exact hnone
      · exact ih hlater

variable {env : Env} {descriptor : CheckpointDescriptor} {data : Bytes}

/-- A publication keeps every entry with its object. -/
theorem Published.entries_held (hb : b.Lawful env.hash view)
    (hbackends : ∀ id b', s.store.backends.find id = some b' → b' = b)
    (h : Published env descriptor data s s') (hs : EntriesHeld env.hash view s) :
    EntriesHeld env.hash view s' := by
  cases h with
  | intro hadmitted hslices hrounds hreads _ =>
      obtain rfl := hbackends _ _ hadmitted.backend
      have hp := hrounds.entries_held hb (fun slice hin => chunk_stream_slice_ok hslices hin) hs
      intro d e hfind
      exact (held_by_congr (congrFun (hreads.same hb) _) _).mpr (hp d e hfind)

section RolledBack

variable {done rest : List ChunkSlice} {p : Publishing W} {s₁ : System W} {w : W}

/-- After a rollback a stored digest that was new has no object, and it has an entry exactly if it
was counted twice. -/
theorem Rounds.rolled_back_new (hb : b.Lawful H view) (hremoves : b.Removes view)
    (hrounds : Rounds b done (Publishing.start s) p) (hok : ∀ slice ∈ done, SliceOk H slice)
    (hstopped : Stopped b rest p.system s₁) (hremovals : Removals b p.locals.newBlobKeys s₁.world w)
    (hnone : s.store.dedup.find d = none) (hd : ∃ slice ∈ done, slice.digest = d) :
    view.objects w (blobKey d) = none ∧
      ((s₁.rolledBack p.locals w).store.dedup.find d = none ↔ occurrences d done ≤ 1) := by
  obtain ⟨hcount, _, hwritten⟩ := hrounds.written_absent hb hok hnone hd
  have honce : p.locals.newDigests.count d = 1 := hwritten
  have hdedup : s₁.store.dedup = p.system.store.dedup := by
    obtain ⟨c, hstore⟩ := hstopped.store_eq
    rw [hstore]
  refine ⟨hremovals.removed hb hremoves ?_, ?_⟩
  · rw [hrounds.new_blob_keys rfl]
    exact List.mem_map_of_mem (List.count_pos_iff.mp (by omega))
  · show (rolledBack p.locals.newDigests s₁.store.dedup).find d = none ↔ _
    rw [find_rolled_back_once honce, hdedup, hcount]

/-- A digest that was not stored does not get an entry. -/
theorem Rounds.rolled_back_unstored (hb : b.Lawful H view)
    (hrounds : Rounds b done (Publishing.start s) p)
    (hstopped : Stopped b rest p.system s₁) (hremovals : Removals b p.locals.newBlobKeys s₁.world w)
    (hnone : s.store.dedup.find d = none) (hd : ∀ slice ∈ done, slice.digest ≠ d) :
    (s₁.rolledBack p.locals w).store.dedup.find d = none := by
  have hraised := hrounds.raised_elsewhere hb hd
  rw [(rolled_back_unwritten hb (hrounds.new_blob_keys rfl) hstopped hremovals hraised.written).1]
  exact hraised.find_none_iff.mpr hnone

/-- What was intact before the publication is intact after the rollback. -/
theorem Rounds.rolled_back_intact (hb : b.Lawful H view)
    (hrounds : Rounds b done (Publishing.start s) p)
    (hstopped : Stopped b rest p.system s₁) (hremovals : Removals b p.locals.newBlobKeys s₁.world w)
    (hintact : Intact H view d s) : Intact H view d (s₁.rolledBack p.locals w) := by
  have hstart : Intact H view d (Publishing.start s).system := hintact
  have hraised := hrounds.raised_intact hb hstart
  obtain ⟨hsame, hobject⟩ :=
    rolled_back_unwritten hb (hrounds.new_blob_keys rfl) hstopped hremovals hraised.written
  exact (hraised.intact hstart).transfer hsame hobject

end RolledBack

/-- A failed publication keeps every entry with its object exactly when it has stored no digest
twice that was new. -/
theorem PublishFailed.entries_held_iff_clean (hb : b.Lawful env.hash view)
    (hremoves : b.Removes view)
    (hbackends : ∀ id b', s.store.backends.find id = some b' → b' = b)
    (h : PublishFailed env descriptor data s s') (hs : EntriesHeld env.hash view s) :
    EntriesHeld env.hash view s' ↔ ∀ slice ∈ storedChunks env data s s',
      s.store.dedup.find slice.digest = none →
        occurrences slice.digest (storedChunks env data s s') ≤ 1 := by
  cases h with
  | rejected =>
      rw [stored_chunks_of_rejected]
      exact ⟨fun _ slice hin => by simp at hin, fun _ => hs⟩
  | @interrupted underlay done rest p s₁ w hadmitted hslices hrounds hstopped hremovals =>
      obtain rfl := hbackends _ _ hadmitted.backend
      rw [stored_chunks_of_rounds hslices hrounds hstopped]
      have hok : ∀ slice ∈ done, SliceOk env.hash slice := fun slice hin =>
        chunk_stream_slice_ok hslices (List.mem_append_left _ hin)
      refine ⟨fun hheld slice hin hnone => ?_, fun hclean d e hfind => ?_⟩
      · obtain ⟨hgone, hentry⟩ :=
          hrounds.rolled_back_new hb hremoves hok hstopped hremovals hnone ⟨slice, hin, rfl⟩
        refine hentry.mp (by_contra fun hkept => ?_)
        obtain ⟨e, hfind⟩ := Option.ne_none_iff_exists'.mp hkept
        obtain ⟨x, hobject, _⟩ := hheld _ _ hfind
        rw [show view.objects w (blobKey slice.digest) = some x from hobject] at hgone
        simp at hgone
      · by_cases hbefore : s.store.dedup.find d = none
        · have hnone : (s₁.rolledBack p.locals w).store.dedup.find d = none := by
            by_cases hd : ∃ slice ∈ done, slice.digest = d
            · obtain ⟨slice, hin, rfl⟩ := hd
              exact (hrounds.rolled_back_new hb hremoves hok hstopped hremovals hbefore
                ⟨slice, hin, rfl⟩).2.mpr (hclean slice hin hbefore)
            · exact hrounds.rolled_back_unstored hb hstopped hremovals hbefore
                fun slice hin heq => hd ⟨slice, hin, heq⟩
          rw [hnone] at hfind
          simp at hfind
        · exact (hrounds.rolled_back_intact hb hstopped hremovals (hs.intact hbefore)).held hfind

/-- A `gc_run` keeps every entry with its object, also when it is interrupted. -/
theorem GcRan.entries_held (hb : b.Lawful H view)
    (hbackends : ∀ id b', s.store.backends.find id = some b' → b' = b) (h : GcRan env s s')
    (hs : EntriesHeld H view s) : EntriesHeld H view s' := by
  intro d e hfind
  obtain ⟨eligible, heffect⟩ := h.effect hb hbackends
  rcases (heffect d).2.2 with hnone | ⟨hsame, hobject⟩
  · rw [hnone] at hfind
    simp at hfind
  · have hentries := sweep_entries eligible s.store d
    rw [← hsame, hfind] at hentries
    obtain ⟨e₀, hfind₀, he₀⟩ := Option.map_eq_some_iff.mp hentries.symm
    have hsize : e₀.uncounted.physicalSize = e.uncounted.physicalSize := by rw [he₀]
    rw [held_by_congr hobject, show e.physicalSize = e₀.physicalSize from hsize.symm]
    exact hs d e₀ hfind₀

theorem fails_cleanly_of_no_publication {e : Event W} (h : e.publication = none) :
    FailsCleanly env s e s' := by
  unfold FailsCleanly
  split
  · simp [Event.publication] at h
  · trivial

/-- One step keeps every entry with its object exactly when it is no failed publication that had
stored a new digest twice. -/
theorem Transition.entries_held_iff_clean (hb : b.Lawful env.hash view) (hremoves : b.Removes view)
    (hbackends : ∀ id b', s.store.backends.find id = some b' → b' = b) {e : Event W}
    (h : Transition env view.Same s e s') (hreopens : e.reopens = false)
    (hs : EntriesHeld env.hash view s) :
    EntriesHeld env.hash view s' ↔ FailsCleanly env s e s' := by
  cases h with
  | quiet hevent h =>
      refine iff_of_true (fun d e hfind => ?_) (fails_cleanly_of_no_publication hevent)
      rw [h.dedup d] at hfind
      exact (held_by_congr (congrFun h.world _) _).mpr (hs d e hfind)
  | published h => exact iff_of_true (h.entries_held hb hbackends hs) trivial
  | publishFailed h => exact h.entries_held_iff_clean hb hremoves hbackends hs
  | gcRan h =>
      exact iff_of_true (h.entries_held hb hbackends hs) (fails_cleanly_of_no_publication rfl)
  | reopened => simp [Event.reopens] at hreopens

/-- A run over one lawful backend whose `remove` works, without a restart, visits only states in
which every entry of the dedup table has its object, exactly when none of its failed publications
had stored a digest twice that was new to the table. -/
theorem entries_held_iff (hb : b.Lawful env.hash view) (hremoves : b.Removes view)
    {options : StoreOptions} {backends : UnorderedMap StorageBackendId (IBackend W)} {w : W}
    (hbackends : ∀ id b', backends.find id = some b' → b' = b) {events : List (Event W)}
    (hreopens : ∀ e ∈ events, e.reopens = false) :
    Run (fun s e s' => Step env view.Same s e s' ∧ EntriesHeld env.hash view s')
        (.fresh options backends w) events s ↔
      Run (fun s e s' => Step env view.Same s e s' ∧ FailsCleanly env s e s')
        (.fresh options backends w) events s := by
  let P : System W → Prop := fun s =>
    (∀ id b', s.store.backends.find id = some b' → b' = b) ∧ EntriesHeld env.hash view s
  have hstart : P (.fresh options backends w) :=
    ⟨hbackends, fun d e hfind => by simp [System.fresh, Store.create] at hfind⟩
  have hstep : ∀ s (e : Event W) s', P s → e.reopens = false → Step env view.Same s e s' →
      (EntriesHeld env.hash view s' ↔ FailsCleanly env s e s') ∧
        ∀ id b', s'.store.backends.find id = some b' → b' = b := by
    rintro s e s' ⟨hbackends, hs⟩ hreopens hstep
    have htransition := step_transition (all_look_of_lawful hb hbackends) hstep
    exact ⟨htransition.entries_held_iff_clean hb hremoves hbackends hreopens hs, fun id b' hfind =>
      hbackends id b' ((htransition.find_backend hreopens id).symm.trans hfind)⟩
  constructor
  · refine fun hrun => hrun.refine_on P hstart (fun s e s' hs hreopens hlast => ?_) hreopens
    obtain ⟨hiff, hbackends'⟩ := hstep s e s' hs hreopens hlast.1
    exact ⟨⟨hlast.1, hiff.mp hlast.2⟩, hbackends', hlast.2⟩
  · refine fun hrun => hrun.refine_on P hstart (fun s e s' hs hreopens hlast => ?_) hreopens
    obtain ⟨hiff, hbackends'⟩ := hstep s e s' hs hreopens hlast.1
    exact ⟨⟨hlast.1, hiff.mpr hlast.2⟩, hbackends', hiff.mpr hlast.2⟩

end Entries

/-- The second publication fails at its last chunk, after sharing the chunk of the first one
twice. -/
theorem entries_held_iff_known_repeat :
    Run (fun s e s' => Step (sampleEnv tagHash) MemoryWorld.view.Same s e s' ∧
        EntriesHeld tagHash MemoryWorld.view s')
      (sampleSystem tagHash [false, false, false, true])
      (callEvents (sampleEnv tagHash) (sampleSystem tagHash [false, false, false, true])
        [.createFamily, .publish (sampleDescriptor 7 1 1) [0],
          .publish (sampleDescriptor 8 2 3) [0, 0, 1]])
      (sampleRun tagHash [false, false, false, true]
        [.createFamily, .publish (sampleDescriptor 7 1 1) [0],
          .publish (sampleDescriptor 8 2 3) [0, 0, 1]]) :=
  (entries_held_iff (memory_backend_lawful tagHash) (memory_backend_removes tagHash)
    (fun _ _ => sample_backends tagHash) (by decide +kernel)).mpr
    (run_calls_where (by decide +kernel))

/-- A publication that has stored a new chunk twice and fails at the next one leaves an entry
without an object. -/
theorem failed_publish_strands_entry :
    ∃ events s e, Run (Step (sampleEnv sha256Hash) MemoryWorld.view.Same)
        (sampleSystem sha256Hash [false, false, true]) events s ∧
      (∀ e ∈ events, e.reopens = false) ∧
      s.store.dedup.find (sha256Hash.sha256 [0]) = some e ∧
      MemoryWorld.view.objects s.world (blobKey (sha256Hash.sha256 [0])) = none := by
  have hstate :
      let s := callAll (sampleEnv sha256Hash) (sampleSystem sha256Hash [false, false, true])
        [.createFamily, .publish (sampleDescriptor 7 1 3) [0, 0, 1]]
      (s.store.dedup.find (sha256Hash.sha256 [0])).isSome ∧
        MemoryWorld.view.objects s.world (blobKey (sha256Hash.sha256 [0])) = none := by
    decide +kernel
  obtain ⟨hsome, hobject⟩ := hstate
  obtain ⟨e, hentry⟩ := Option.isSome_iff_exists.mp hsome
  exact ⟨_, _, e, run_calls _ _ _ _, fun _ => reopens_of_mem_call_events (by decide), hentry,
    hobject⟩

end CheckpointStore
