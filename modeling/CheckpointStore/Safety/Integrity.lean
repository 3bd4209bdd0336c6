import CheckpointStore.Safety.Records

/-!
# What a restore returns

`restore` is sound against any backend. `post_restore_assembled` is about one call: the bytes that
are returned have the digest of the manifest, and a call that throws leaves no record newly marked
as verified. `Origin` says which publication a record comes from, over publications, saves and
restarts, and `Origin.manifest` that the manifest still has the digest of what was published.
`restore_sound` combines them.
-/

namespace CheckpointStore

open Foundation Foundation.Procedure Foundation.UnorderedMap

variable {W : Type}

/-! ## One restore -/

/-- No record is marked as verified that was not before. -/
def NotPromoted (s s' : System W) : Prop :=
  ∀ id rec', s'.store.checkpoints.find id = some rec' → rec'.integrity = .verified →
    ∃ rec, s.store.checkpoints.find id = some rec ∧ rec.integrity = .verified

instance : Std.Refl (NotPromoted (W := W)) :=
    ⟨fun _ _ rec hfind hverified => ⟨rec, hfind, hverified⟩⟩

instance : IsTrans (System W) NotPromoted where
  trans _ _ _ h h' id rec hfind hverified := by
    obtain ⟨rec', hfind', hverified'⟩ := h' id rec hfind hverified
    exact h id rec' hfind' hverified'

section Restore

variable {env : Env} {s : System W} {id : CheckpointId}

/-- An update of one record that does not promote it. -/
theorem not_promoted_modify {f : CheckpointRecord → CheckpointRecord} {store : Store W}
    (hcheckpoints : store.checkpoints = s.store.checkpoints.modify id f)
    (hf : ∀ rec, (f rec).integrity = .verified → rec.integrity = .verified) :
    NotPromoted s { s with store := store } := by
  intro id' rec' hfind hverified
  dsimp only at hfind
  rw [hcheckpoints, find_modify] at hfind
  by_cases hid : id' = id
  · rw [if_pos hid] at hfind
    obtain ⟨rec, hrec, rfl⟩ := Option.map_eq_some_iff.mp hfind
    exact ⟨rec, hrec, hf rec hverified⟩
  · rw [if_neg hid] at hfind
    exact ⟨rec', hfind, hverified⟩

theorem not_promoted_corrupt {store : Store W}
    (hcheckpoints : store.checkpoints = (setIntegrity id .corrupt s.store).checkpoints) :
    NotPromoted s { s with store := store } := by
  refine not_promoted_modify (f := fun rec => { rec with integrity := .corrupt }) hcheckpoints ?_
  intro rec h
  cases h

theorem not_promoted_quarantine (rid : ReplicaId) (rd : ReplicaDescriptor) (s : System W) :
    NotPromoted s { s with store := quarantine id rid rd s.store } := by
  unfold quarantine
  dsimp only
  split
  · refine not_promoted_modify (f := fun rec =>
      { rec with replicaSet := { rec.replicaSet with durabilityState := .degraded } }) rfl ?_
    intro rec h
    exact h
  · exact refl_of NotPromoted s

theorem keeps_call_backend {α : Type} (m : Proc W α) :
    Keeps NotPromoted (callBackend m : Proc (System W) α) :=
  keeps_zoom (R := NotPromoted) (show Keeps (fun _ _ => True) m from fun _ => trivial)
    fun s _ _ => refl_of NotPromoted s

/-- Trying sources promotes nothing. -/
theorem keeps_restore_chunk (cd : ChunkDescriptor) (rids : List ReplicaId)
    (evidence : RestoreEvidence) :
    Keeps NotPromoted (restoreChunk env id cd rids evidence :
      Proc (System W) (Option Bytes × RestoreEvidence)) := by
  induction rids generalizing evidence with
  | nil => exact keeps_pure _
  | cons rid rest ih =>
      refine keeps_bind keeps_get fun s => ?_
      cases s.store.replicas.find rid with
      | none => exact ih _
      | some rd =>
          dsimp only
          cases s.store.backends.find rd.backendId with
          | none => exact ih _
          | some b =>
              refine keeps_bind (keeps_call_backend _) fun _ => keeps_ite (ih _)
                (keeps_bind ?_ fun attempt => ?_)
              · refine keeps_try_catch (keeps_bind (keeps_call_backend _) fun _ => keeps_pure _)
                  fun exn => ?_
                cases exn with
                | error code message => exact keeps_pure _
                | foreign => exact keeps_throw _
              · cases attempt with
                | none => exact ih _
                | some rb =>
                    exact keeps_ite (keeps_pure _) (keeps_bind
                      (keeps_modify fun s => not_promoted_quarantine rid rd s) fun _ => ih _)

/-- The bytes so far, the state of the hasher and the count belong together. -/
def RestoreProgress.Assembled (progress : RestoreProgress env) : Prop :=
  (∃ parts : List Bytes, progress.out = parts.flatten ∧
    progress.combined = parts.foldl env.hash.update env.hash.init) ∧
  progress.bytesRestored = byteSize progress.out

theorem RestoreProgress.Assembled.digest {progress : RestoreProgress env}
    (h : progress.Assembled) :
    env.hash.final progress.combined = env.hash.sha256 progress.out := by
  obtain ⟨⟨parts, hout, hcombined⟩, _⟩ := h
  rw [hcombined, env.hash.final_foldl, hout]
  rfl

/-- The loop hashes what it assembles. -/
theorem post_restore_chunks_assembled (rec : CheckpointRecord) {entries : List ManifestEntry}
    {progress : RestoreProgress env} (h : progress.Assembled) (limit : Nat) (s : System W) :
    Post (restoreChunks env limit id rec entries progress) s
      (fun progress' s' => progress'.Assembled ∧ NotPromoted s s')
      (fun _ s' => NotPromoted s s') := by
  induction entries generalizing progress s with
  | nil => exact ⟨h, refl_of NotPromoted s⟩
  | cons entry rest ih =>
      unfold restoreChunks
      cases rec.chunks.find? (fun cd => cd.id = entry.chunkId) with
      | none => exact refl_of NotPromoted s
      | some cd =>
          dsimp only
          rw [post_bind, post_get, post_bind]
          refine (keeps_iff_post.mp (keeps_restore_chunk cd _ _) s).mono (fun found s₁ hs₁ => ?_)
            fun _ _ h => h
          obtain ⟨bytes, evidence⟩ := found
          cases bytes with
          | none =>
              dsimp only
              rw [post_bind, post_modify_store]
              exact trans_of NotPromoted hs₁ (not_promoted_corrupt rfl)
          | some rb =>
              dsimp only
              rw [post_ite]
              refine ⟨fun _ => hs₁, fun _ => ?_⟩
              obtain ⟨⟨parts, hout, hcombined⟩, hcount⟩ := h
              refine (ih ⟨⟨parts ++ [rb], ?_, ?_⟩, ?_⟩ s₁).mono
                (fun _ _ h => ⟨h.1, trans_of NotPromoted hs₁ h.2⟩)
                fun _ _ h => trans_of NotPromoted hs₁ h
              · simp [hout]
              · simp [hcombined]
              · rw [byte_size_append, hcount]

/-- Whatever the backends answer: the bytes that a restore returns have the digest of the manifest,
and a restore that throws promotes no record. -/
theorem post_restore_assembled (restoreId : RestoreId) (id : CheckpointId) (s : System W) :
    Post (restore env restoreId id) s
      (fun restored _ => (∃ rec, s.store.checkpoints.find id = some rec ∧
          env.hash.sha256 restored.bytes = rec.manifest.checkpointDigest) ∧
        restored.evidence.bytesRestored = byteSize restored.bytes)
      (fun _ s' => NotPromoted s s') := by
  unfold restore
  rw [post_bind, post_get]
  cases hfind : s.store.checkpoints.find id with
  | none => exact refl_of NotPromoted s
  | some rec =>
      dsimp only
      rw [post_ite]
      refine ⟨fun _ => refl_of NotPromoted s, fun _ => ?_⟩
      rw [post_ite]
      refine ⟨fun _ => refl_of NotPromoted s, fun _ => ?_⟩
      rw [post_bind]
      refine (post_restore_chunks_assembled rec ⟨⟨[], rfl, rfl⟩, rfl⟩ _ s).mono
        (fun progress s₁ h => ?_) fun _ _ h => h
      obtain ⟨hassembled, hs₁⟩ := h
      unfold finishRestore
      rw [post_ite]
      refine ⟨fun _ => ?_, fun hdigest => ?_⟩
      · rw [post_bind, post_modify_store]
        exact trans_of NotPromoted hs₁ (not_promoted_corrupt rfl)
      · rw [post_bind, post_modify_store, post_pure]
        refine ⟨⟨rec, rfl, ?_⟩, hassembled.2⟩
        rw [← hassembled.digest]
        exact not_not.mp hdigest

end Restore

/-! ## Where a record comes from -/

/-- In the state after the events, the record of a checkpoint comes from the publication of
`data`. -/
inductive Origin (env : Env) (start : System W) :
    List (Event W) → System W → CheckpointId → Bytes → Prop where
  /-- It has just been published. -/
  | published {events : List (Event W)} {s s' : System W} {d : CheckpointDescriptor} {data : Bytes}
      (hrun : Run (Step env Anything) start events s)
      (hstep : Step env Anything s (.call (.publish d data) none) s') :
      Origin env start (events ++ [.call (.publish d data) none]) s' d.id data
  /-- The store has gone on. -/
  | kept {events : List (Event W)} {s s' : System W} {e : Event W} {id : CheckpointId}
      {data : Bytes} (h : Origin env start events s id data) (hstep : Step env Anything s e s')
      (hreopen : e.reopens = false) : Origin env start (events ++ [e]) s' id data
  /-- A fresh store has loaded it from the file of an earlier state. -/
  | loaded {events more : List (Event W)} {s s₁ s₂ : System W} {options : StoreOptions}
      {backends : UnorderedMap StorageBackendId (IBackend W)} {thrown : Option Exn}
      {id : CheckpointId} {data : Bytes} (h : Origin env start events s id data)
      (hrun : Run (Step env Anything) s more s₁)
      (hfile : s₁.files.find options.statePath =
        some (stateFrame env.hash (stateBody env.period s.store)))
      (hstep : Step env Anything s₁ (.call (.reopen options backends) thrown) s₂)
      (hrecord : s₂.store.checkpoints.contains id = true) :
      Origin env start (events ++ (more ++ [.call (.reopen options backends) thrown])) s₂ id data

section Origin

variable {env : Env} {start s s' : System W} {events : List (Event W)}

/-- The records of a store that has been reopened are those of the saved one. -/
theorem record_of_reopened {options : StoreOptions}
    {backends : UnorderedMap StorageBackendId (IBackend W)} {id : CheckpointId}
    {rec : CheckpointRecord}
    (hrec : (finalState (reopenStore env options backends s)).store.checkpoints.find id =
      some rec) :
    ∃ raw, s.files.find options.statePath = some raw ∧ ∀ saved : Store W, WellKeyed saved →
      raw = stateFrame env.hash (stateBody env.period saved) →
      ∃ rec', saved.checkpoints.find id = some rec' ∧ rec = rec'.truncated env.period := by
  cases hfile : s.files.find options.statePath with
  | none =>
      have hpost : Post (reopenStore env options backends) s (fun _ _ => False)
          (fun _ s' => s'.store.checkpoints.find id = none) := by
        rw [reopenStore, post_bind, post_modify_store, loadState, post_bind, post_get, post_bind,
          readFile, post_bind, post_get]
        dsimp only [Store.create]
        rw [hfile]
        rfl
      have hnone := post_final
        (P := fun _ (s' : System W) => s'.store.checkpoints.find id = none)
        (hpost.mono (fun _ _ h => h.elim) fun _ _ h => h)
      rw [hnone] at hrec
      cases hrec
  | some raw =>
      refine ⟨raw, rfl, fun saved hkeyed hraw => ?_⟩
      let Held (store : Store W) : Prop := store.checkpoints.find id = some rec →
        ∃ rec', saved.checkpoints.find id = some rec' ∧ rec = rec'.truncated env.period
      have hpost : Post (reopenStore env options backends) s (fun _ s' => Held s'.store)
          (fun _ s' => Held s'.store) := by
        rw [reopenStore, post_bind, post_modify_store]
        refine (post_load_state env hkeyed (fun _ => rfl) (hraw ▸ hfile)).mono
          (fun _ s' h => ?_) fun _ s' h => ?_
        · obtain ⟨_, rfl⟩ := h
          have hcheckpoints := (recovered_reproduces env.period hkeyed
            (fun _ => rfl : ∀ d, (Store.create options backends).dedup.entries.find d = none)
            ).checkpoints
          intro hfind
          rw [hcheckpoints] at hfind
          obtain ⟨rec', hrec', hrec⟩ := Option.map_eq_some_iff.mp hfind
          exact ⟨rec', hrec', hrec.symm⟩
        · obtain ⟨_, store, rfl, rfl | hstore⟩ := h
          · intro hfind
            cases hfind
          · intro hfind
            obtain ⟨rec', hrec', hrec⟩ := hstore id rec hfind
            exact ⟨rec', hrec', hrec⟩
      exact post_final (P := fun _ (s' : System W) => Held s'.store) hpost hrec

theorem manifest_of_reopened {options : StoreOptions}
    {backends : UnorderedMap StorageBackendId (IBackend W)} {id : CheckpointId}
    {m : CheckpointManifest}
    (hm : (finalState (reopenStore env options backends s)).store.manifest id = some m) :
    ∃ raw, s.files.find options.statePath = some raw ∧ ∀ saved : Store W, WellKeyed saved →
      raw = stateFrame env.hash (stateBody env.period saved) → saved.manifest id = some m := by
  obtain ⟨rec, hrec, rfl⟩ := Option.map_eq_some_iff.mp hm
  obtain ⟨raw, hraw, hsaved⟩ := record_of_reopened hrec
  refine ⟨raw, hraw, fun saved hkeyed hframe => ?_⟩
  obtain ⟨rec', hrec', rfl⟩ := hsaved saved hkeyed hframe
  exact Option.map_eq_some_iff.mpr ⟨rec', hrec', rfl⟩

/-- A file after a save is from before, or it has what was saved. -/
theorem post_save_files (answers : WriteAnswers) (s : System W) {path raw : Bytes} :
    Post (saveState env answers) s
      (fun _ s' => s'.files.find path = some raw → s.files.find path = some raw ∨
        raw = stateFrame env.hash (stateBody env.period s.store))
      (fun _ s' => s'.files.find path = some raw → s.files.find path = some raw ∨
        raw = stateFrame env.hash (stateBody env.period s.store)) := by
  generalize hdata : stateFrame env.hash (stateBody env.period s.store) = data
  let Known (files : UnorderedMap Bytes Bytes) : Prop :=
    files.find path = some raw → s.files.find path = some raw ∨ raw = data
  have herase : ∀ {files : UnorderedMap Bytes Bytes} (other : Bytes), Known files →
      Known (files.erase other) := by
    intro files other hfiles hfind
    rw [find_erase] at hfind
    split at hfind
    · cases hfind
    · exact hfiles hfind
  have hassign : ∀ {files : UnorderedMap Bytes Bytes} (other : Bytes), Known files →
      Known (files.assign other data) := by
    intro files other hfiles hfind
    rw [find_assign] at hfind
    split at hfind
    · exact Or.inr (Option.some.inj hfind).symm
    · exact hfiles hfind
  have hsame : Known s.files := Or.inl
  simp only [saveState, atomicWriteFile, modifyFiles, post_bind, post_get, post_ite,
    post_throw_store_error, post_modify, hdata]
  have hremoved : Known (if answers.removed then
      (s.files.assign (tempPath s.store.options.statePath answers.stamp) data).erase
        s.store.options.statePath
      else s.files.assign (tempPath s.store.options.statePath answers.stamp) data) := by
    split
    · exact herase _ (hassign _ hsame)
    · exact hassign _ hsame
  exact ⟨fun _ => hsame, fun _ => ⟨fun _ => herase _ hsame, fun _ => ⟨fun _ => hremoved,
    fun _ => hassign _ (herase _ hremoved)⟩⟩⟩

/-- The file at a path is from before, or it is the file of the current store. -/
theorem step_files {e : Event W} (h : Step env Anything s e s') {path raw : Bytes}
    (hfile : s'.files.find path = some raw) :
    s.files.find path = some raw ∨ raw = stateFrame env.hash (stateBody env.period s.store) := by
  cases step_registers h with
  | same hregistry => exact Or.inl (hregistry.files ▸ hfile)
  | created => exact Or.inl hfile
  | policySet policy => exact Or.inl hfile
  | bootSet boot => exact Or.inl hfile
  | published hpublished => exact Or.inl (hpublished.enrolled.files ▸ hfile)
  | saved answers =>
      exact post_final (P := fun _ (s' : System W) => s'.files.find path = some raw →
        s.files.find path = some raw ∨ raw = stateFrame env.hash (stateBody env.period s.store))
        (post_save_files answers s) hfile
  | reopened options backends =>
      obtain ⟨store, hstore, _⟩ := well_keyed_load_frame.reopened env options backends s
      rw [hstore] at hfile
      exact Or.inl hfile

/-- Every record has an origin, and every file is the file of an earlier state all of whose
records have one. -/
structure Attributed (env : Env) (start : System W) (events : List (Event W)) (s : System W) :
    Prop where
  records : ∀ id m, s.store.manifest id = some m → ∃ data, Origin env start events s id data
  files : ∀ path raw, s.files.find path = some raw → ∃ earlier more s₀,
    events = earlier ++ more ∧ Run (Step env Anything) start earlier s₀ ∧
    Run (Step env Anything) s₀ more s ∧ raw = stateFrame env.hash (stateBody env.period s₀.store) ∧
    ∀ id m, s₀.store.manifest id = some m → ∃ data, Origin env start earlier s₀ id data

theorem attributed_reopened {options : StoreOptions}
    {backends : UnorderedMap StorageBackendId (IBackend W)} {thrown : Option Exn}
    (h : Attributed env start events s) (hkeyed : WellKeyed start.store)
    (hstep : Step env Anything s (.call (.reopen options backends) thrown) s') {id : CheckpointId}
    {m : CheckpointManifest} (hm : s'.store.manifest id = some m) :
    ∃ data, Origin env start (events ++ [.call (.reopen options backends) thrown]) s' id data := by
  have hfinal : s' = finalState (reopenStore env options backends s) := by
    cases hstep
    rfl
  obtain ⟨raw, hfile, hsaved⟩ := manifest_of_reopened (hfinal ▸ hm)
  obtain ⟨earlier, more, s₀, rfl, hearlier, hmore, rfl, horigins⟩ := h.files _ _ hfile
  obtain ⟨data, horigin⟩ :=
    horigins id m (hsaved s₀.store (well_keyed_run hkeyed hearlier) rfl)
  have hrecord : s'.store.checkpoints.contains id = true := by
    obtain ⟨rec, hfind, _⟩ := Option.map_eq_some_iff.mp hm
    exact contains_iff.mpr ⟨rec, hfind⟩
  rw [List.append_assoc]
  exact ⟨data, horigin.loaded hmore hfile hstep hrecord⟩

/-- One more event keeps every manifest attributed. -/
theorem Attributed.step {e : Event W} (h : Attributed env start events s)
    (hrun : Run (Step env Anything) start events s) (hkeyed : WellKeyed start.store)
    (hstep : Step env Anything s e s') : Attributed env start (events ++ [e]) s' where
  records id m hm := by
    by_cases hreopen : e.reopens = false
    · have hmanifests := step_manifests hstep hreopen
      generalize hafter : s'.store.manifest = manifest' at hmanifests hm
      cases hmanifests with
      | kept _ =>
          obtain ⟨data, horigin⟩ := h.records id m hm
          exact ⟨data, horigin.kept hstep hreopen⟩
      | @entered d data _ _ _ _ =>
          dsimp only at hm
          by_cases hid : id = d.id
          · exact ⟨data, hid ▸ .published hrun hstep⟩
          · rw [if_neg hid] at hm
            obtain ⟨data', horigin⟩ := h.records id m hm
            exact ⟨data', horigin.kept hstep hreopen⟩
    · cases e with
      | rehash => exact absurd rfl hreopen
      | outside => exact absurd rfl hreopen
      | call op thrown =>
          cases op with
          | reopen options backends => exact attributed_reopened h hkeyed hstep hm
          | _ => exact absurd rfl hreopen
  files path raw hfile := by
    rcases step_files hstep hfile with hold | hnew
    · obtain ⟨earlier, more, s₀, rfl, hearlier, hmore, hraw, horigins⟩ := h.files path raw hold
      exact ⟨earlier, more ++ [e], s₀, List.append_assoc .., hearlier, hmore.extend hstep, hraw,
        horigins⟩
    · exact ⟨events, [e], s, rfl, hrun, Run.start.extend hstep, hnew, h.records⟩

/-- In every run each manifest has its publication. -/
theorem attributed_run {options : StoreOptions}
    {backends : UnorderedMap StorageBackendId (IBackend W)} {w : W}
    (hrun : Run (Step env Anything) (.fresh options backends w) events s) :
    Attributed env (.fresh options backends w) events s := by
  refine Run.invariant_on (A := fun _ => True) (Attributed env (.fresh options backends w)) ?_ ?_
    hrun fun _ _ => trivial
  · refine ⟨fun id m hm => ?_, fun path raw hfile => ?_⟩
    · cases hm
    · cases hfile
  · intro events s e s' hrun h _ hstep
    exact h.step hrun (well_keyed_create options backends) hstep

/-- The manifest on record has the digest of what was published. -/
theorem Origin.manifest {id : CheckpointId} {data : Bytes} (h : Origin env start events s id data)
    (hkeyed : WellKeyed start.store) :
    Run (Step env Anything) start events s ∧
      ∃ m, s.store.manifest id = some m ∧ m.checkpointDigest = env.hash.sha256 data := by
  induction h with
  | @published events s s' d data hrun hstep =>
      refine ⟨hrun.extend hstep, ?_⟩
      have hmanifests := step_manifests hstep rfl
      generalize s'.store.manifest = manifest' at hmanifests ⊢
      cases hmanifests with
      | kept hevent => cases hevent
      | @entered _ _ m _ _ hdigest => exact ⟨m, if_pos rfl, hdigest⟩
  | @kept events s s' e id data _ hstep hreopen ih =>
      obtain ⟨hrun, m, hm, hdigest⟩ := ih
      refine ⟨hrun.extend hstep, m, ?_, hdigest⟩
      have hmanifests := step_manifests hstep hreopen
      generalize s'.store.manifest = manifest' at hmanifests ⊢
      cases hmanifests with
      | kept _ => exact hm
      | entered hfresh _ _ =>
          -- A new record has an identity that was free.
          dsimp only
          rw [if_neg, hm]
          rintro rfl
          rw [hm] at hfresh
          cases hfresh
  | @loaded events more s s₁ s₂ options backends thrown id data _ hmore hfile hstep hrecord ih =>
      obtain ⟨hrun, m, hm, hdigest⟩ := ih
      refine ⟨hrun.append (hmore.extend hstep), ?_⟩
      have hfinal : s₂ = finalState (reopenStore env options backends s₁) := by
        cases hstep
        rfl
      obtain ⟨rec, hfind⟩ := contains_iff.mp hrecord
      have hm₂ : s₂.store.manifest id = some rec.manifest :=
        Option.map_eq_some_iff.mpr ⟨rec, hfind, rfl⟩
      obtain ⟨raw, hraw, hsaved⟩ := manifest_of_reopened (hfinal ▸ hm₂)
      rw [hfile] at hraw
      have hsame := hsaved s.store (well_keyed_run hkeyed hrun) (Option.some.inj hraw).symm
      rw [hm] at hsame
      cases hsame
      exact ⟨_, hm₂, hdigest⟩

end Origin

/-! ## Restores in runs -/

section Runs

variable {env : Env} {options : StoreOptions}
  {backends : UnorderedMap StorageBackendId (IBackend W)} {w : W}

/-- Two inputs with the same hash. -/
def StreamHash.Collides (H : StreamHash) (x y : Bytes) : Prop := x ≠ y ∧ H.sha256 x = H.sha256 y

/-- In every state of every run, whatever the backends do: the bytes that a restore returns have
the digest of what was published as this checkpoint, which is the one in the manifest, and are
counted correctly; they are what was published, unless the hash collides. A restore that throws
marks no record as verified. -/
theorem restore_sound {events : List (Event W)} {s : System W}
    (hrun : Run (Step env Anything) (.fresh options backends w) events s) (restoreId : RestoreId)
    (id : CheckpointId) :
    (∀ restored s', restore env restoreId id s = .ok restored s' →
      (∃ data, Origin env (.fresh options backends w) events s id data) ∧
      ∀ data, Origin env (.fresh options backends w) events s id data →
        ∃ rec, s.store.checkpoints.find id = some rec ∧
          env.hash.sha256 restored.bytes = env.hash.sha256 data ∧
          rec.manifest.checkpointDigest = env.hash.sha256 data ∧
          restored.evidence.bytesRestored = byteSize restored.bytes ∧
          (restored.bytes = data ∨ env.hash.Collides restored.bytes data)) ∧
    ∀ exn s', restore env restoreId id s = .error exn s' → NotPromoted s s' := by
  have hpost := @post_restore_assembled W env restoreId id s
  refine ⟨fun restored s' hok => ?_, fun exn s' herror => hpost.of_error herror⟩
  obtain ⟨⟨rec, hfind, hdigest⟩, hcount⟩ := hpost.of_ok hok
  have hmanifest : s.store.manifest id = some rec.manifest :=
    Option.map_eq_some_iff.mpr ⟨rec, hfind, rfl⟩
  refine ⟨(attributed_run hrun).records id _ hmanifest, fun data horigin => ?_⟩
  obtain ⟨_, m, hm, hpublished⟩ := horigin.manifest (well_keyed_create options backends)
  rw [hmanifest] at hm
  cases hm
  have hsame := hdigest.trans hpublished
  refine ⟨rec, hfind, hsame, hpublished, hcount, ?_⟩
  by_cases hbytes : restored.bytes = data
  · exact Or.inl hbytes
  · exact Or.inr ⟨hbytes, hsame⟩

/-- A publication of two chunks. -/
def twoChunks : Op MemoryWorld := .publish (sampleDescriptor 7 1 2) [1, 2]

/-- A checkpoint of two chunks. -/
theorem restore_sound_two_chunks :
    let env := sampleEnv tagHash
    let s := finalState (twoChunks.run env (sampleRun tagHash [] [.createFamily]))
    ∃ restored s', restore env ⟨1⟩ ⟨7⟩ s = .ok restored s' ∧
      env.hash.sha256 restored.bytes = env.hash.sha256 [1, 2] := by
  intro env s
  have hfirst : Run (Step env Anything) (sampleSystem tagHash [])
      (callEvents env (sampleSystem tagHash []) [.createFamily])
      (sampleRun tagHash [] [.createFamily]) :=
    run_calls env Anything (sampleSystem tagHash []) [.createFamily]
  have hreturns : thrown (twoChunks.run env (sampleRun tagHash [] [.createFamily])) = none := by
    decide +kernel
  have hbytes : (returned (restore env ⟨1⟩ ⟨7⟩ s)).map (fun r => r.bytes) = some [1, 2] := by
    decide +kernel
  have hstep : Step env Anything (sampleRun tagHash [] [.createFamily])
      (.call twoChunks none) s := by
    rw [← hreturns]
    exact .call twoChunks
  clear_value s
  cases hrestore : restore env ⟨1⟩ ⟨7⟩ s with
  | error exn s' => simp [hrestore, returned] at hbytes
  | ok restored s' =>
      obtain ⟨_, _, hsame, _⟩ := ((restore_sound (hfirst.extend hstep) ⟨1⟩ ⟨7⟩).1 restored s'
        hrestore).2 [1, 2] (.published hfirst hstep)
      exact ⟨restored, s', rfl, hsame⟩

end Runs

end CheckpointStore
