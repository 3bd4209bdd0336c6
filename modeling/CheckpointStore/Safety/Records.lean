import CheckpointStore.Runs.Registry
import CheckpointStore.Safety.Collection

/-!
# Records are filed under their own identity

`well_keyed_run`: in every state of every run, including restarts from arbitrary state files,
each table of the store files its values under their own keys. Saving and loading rely on this,
since the state file holds the values without the keys.
-/

namespace CheckpointStore

open Foundation Foundation.Procedure Foundation.UnorderedMap

variable {W : Type}

theorem filed_modify {K V : Type} [DecidableEq K] {key : V → K} {m : UnorderedMap K V}
    (h : Filed key m) {k : K} {f : V → V} (hf : ∀ v, key (f v) = key v) :
    Filed key (m.modify k f) :=
  h.of_map_eq (map_find_modify fun v _ => hf v) (fun k => k) fun _ => rfl

/-! ## Publications -/

section Publishing

variable {underlay : IBackend W} {slice : ChunkSlice}

/-- The dedup table files its entries under their digests. -/
def EntriesFiled (t : DedupTable) : Prop := Filed (fun e => e.digest) t.entries

theorem Acquired.entries_filed {p q : Publishing W} {blobId : BlobId}
    (h : Acquired underlay slice p blobId q) (ht : EntriesFiled p.system.store.dedup) :
    EntriesFiled q.system.store.dedup := by
  cases h with
  | @reused e w t hfind _ hadd =>
      intro d e' hfind'
      obtain ⟨_, hfinds⟩ := DedupTable.add_reference_cases hfind hadd
      have hfind'' : t.find d = some e' := hfind'
      rw [hfinds d] at hfind''
      by_cases hd : d = slice.digest
      · rw [if_pos hd] at hfind''
        cases hfind''
        rw [hd]
        exact ht slice.digest e hfind
      · rw [if_neg hd] at hfind''
        exact ht d e' hfind''
  | @written s w₁ w₂ t added hmissed _ _ hinsert =>
      intro d e' hfind'
      have hfind'' : t.find d = some e' := hfind'
      rcases DedupTable.insert_cases hinsert with ⟨_, hfinds⟩ | ⟨_, _, _, rfl⟩
      · rw [hfinds d] at hfind''
        by_cases hd : d = slice.digest
        · rw [if_pos hd] at hfind''
          cases hfind''
          exact hd.symm
        · rw [if_neg hd] at hfind''
          exact ht d e' hfind''
      · exact ht d e' hfind''

theorem filed_record_blob {dedup : DedupTable} {blobId : BlobId} {replica : ReplicaId}
    {blobs : UnorderedMap BlobId BlobDescriptor} (h : Filed (fun b => b.id) blobs) :
    Filed (fun b => b.id) (recordBlob dedup slice blobId replica blobs) := by
  unfold recordBlob
  split
  · exact h.emplace rfl
  · split
    · exact h
    · exact filed_modify h fun _ => rfl

/-- A publication under way: the tables it writes to are filed. -/
structure FiledSoFar (store : Store W) : Prop where
  entries : EntriesFiled store.dedup
  blobs : Filed (fun b => b.id) store.blobs
  placements : Filed (fun p => p.id) store.placements

/-- The chunk loop files entries and blobs. -/
theorem Rounds.filed {slices : List ChunkSlice} {p p' : Publishing W}
    (hrounds : Rounds underlay slices p p') (h : FiledSoFar p.system.store) :
    FiledSoFar p'.system.store := by
  induction hrounds with
  | nil p => exact h
  | @cons slice rest p q p' blobId hacquired _ ih =>
      have hentries := hacquired.entries_filed h.entries
      obtain ⟨_, _, hstore⟩ := hacquired.store_eq
      have hblobs : Filed (fun b => b.id) q.system.store.blobs := by rw [hstore]; exact h.blobs
      have hplacements : Filed (fun p => p.id) q.system.store.placements := by
        rw [hstore]
        exact h.placements
      exact ih ⟨hentries, filed_record_blob hblobs, hplacements.emplace rfl⟩

theorem EntriesFiled.rolled_back {t : DedupTable} (h : EntriesFiled t) (digests : List Digest) :
    EntriesFiled (rolledBack digests t) := by
  unfold rolledBack
  induction digests generalizing t with
  | nil => exact h
  | cons d₁ rest ih =>
      rw [List.foldl_cons]
      refine ih fun d e hfind => ?_
      have hfind' : (rollbackDigest d₁ t).find d = some e := hfind
      rw [rollbackDigest, DedupTable.find_release_until_orphan] at hfind'
      split at hfind'
      · simp at hfind'
      · rw [DedupTable.find_release_reference] at hfind'
        split at hfind'
        · next hd =>
            obtain ⟨e₀, hfind₀, rfl⟩ := Option.map_eq_some_iff.mp hfind'
            rw [hd]
            exact h d₁ e₀ hfind₀
        · exact h d e hfind'

end Publishing

section Steps

variable {env : Env} {descriptor : CheckpointDescriptor} {data : Bytes} {s s' : System W}

/-- The part of `WellKeyed` that content determines. -/
structure ContentFiled (store : Store W) : Prop extends FiledSoFar store where
  checkpoints : Filed (fun r => r.descriptor.id) store.checkpoints
  replicas : Filed (fun r => r.id) store.replicas

/-- A publication files what it enters. -/
theorem Published.content_filed (h : Published env descriptor data s s')
    (hs : ContentFiled s.store) : ContentFiled s'.store := by
  cases h with
  | @intro underlay slices p w _ _ hrounds _ _ =>
      have hloop := hrounds.filed ⟨hs.entries, hs.blobs, hs.placements⟩
      obtain ⟨_, _, _, _, _, hstore⟩ := hrounds.store_eq
      have hcheckpoints : p.system.store.checkpoints = s.store.checkpoints := by rw [hstore]; rfl
      have hreplicas : p.system.store.replicas = s.store.replicas := by rw [hstore]; rfl
      refine ⟨⟨hloop.entries, hloop.blobs, hloop.placements⟩, ?_, ?_⟩
      · show Filed _ (p.system.store.checkpoints.emplace _ _)
        rw [hcheckpoints]
        exact hs.checkpoints.emplace rfl
      · show Filed _ (p.system.store.replicas.emplace _ _)
        rw [hreplicas]
        exact hs.replicas.emplace rfl

theorem PublishFailed.content_filed (h : PublishFailed env descriptor data s s')
    (hs : ContentFiled s.store) : ContentFiled s'.store := by
  cases h with
  | rejected => exact ⟨⟨hs.entries, hs.blobs, hs.placements⟩, hs.checkpoints, hs.replicas⟩
  | @interrupted underlay done rest p s₁ w _ _ hrounds hstopped _ =>
      have hloop := hrounds.filed ⟨hs.entries, hs.blobs, hs.placements⟩
      obtain ⟨_, hstopped⟩ := hstopped.store_eq
      obtain ⟨_, _, _, _, _, hstore⟩ := hrounds.store_eq
      refine ⟨⟨?_, ?_, ?_⟩, ?_, ?_⟩
      · show EntriesFiled (rolledBack p.locals.newDigests s₁.store.dedup)
        rw [hstopped]
        exact hloop.entries.rolled_back _
      · show Filed _ s₁.store.blobs
        rw [hstopped]
        exact hloop.blobs
      · show Filed _ s₁.store.placements
        rw [hstopped]
        exact hloop.placements
      · show Filed _ s₁.store.checkpoints
        rw [hstopped, hstore]
        exact hs.checkpoints
      · show Filed _ s₁.store.replicas
        rw [hstopped, hstore]
        exact hs.replicas

theorem GcRan.content_filed (h : GcRan env s s') (hs : ContentFiled s.store) :
    ContentFiled s'.store := by
  have hreclaimed : ∀ {reachable bids : List BlobId} {eligible : List CheckpointId}
      {s₂ s₃ : System W}, Reclaims reachable bids { s₂ with store := sweep eligible s.store } s₃ →
      ContentFiled s₃.store := by
    intro reachable bids eligible s₂ s₃ hreclaims
    obtain ⟨_, _, _, hstore⟩ := hreclaims.store_eq
    obtain ⟨_, _, _, hsweep⟩ := sweep_store_eq eligible s.store
    have hentries : EntriesFiled (sweep eligible s.store).dedup :=
      hs.entries.of_map_eq (sweep_entries eligible s.store) DedupEntry.digest fun _ => rfl
    refine ⟨⟨hentries.of_find fun d e => hreclaims.find_entry, ?_, ?_⟩, ?_, ?_⟩
    · refine Filed.of_find ?_ fun bid bd => hreclaims.find_blob
      show Filed _ (sweep eligible s.store).blobs
      rw [hsweep]
      exact hs.blobs
    · rw [hstore]
      show Filed _ (sweep eligible s.store).placements
      rw [hsweep]
      exact hs.placements
    · rw [hstore]
      exact hs.checkpoints.of_map_eq (map_find_sweep (fun _ => rfl) eligible s.store)
        (fun cid => cid) fun _ => rfl
    · rw [hstore]
      show Filed _ (sweep eligible s.store).replicas
      rw [hsweep]
      exact hs.replicas
  cases h with
  | completed _ _ hreclaims =>
      have h₃ := hreclaimed hreclaims
      exact ⟨⟨h₃.entries, h₃.blobs, h₃.placements⟩, h₃.checkpoints, h₃.replicas⟩
  | interrupted _ _ _ hreclaims hthrew =>
      have h₃ := hreclaimed hreclaims
      cases hthrew with
      | intro => exact ⟨⟨h₃.entries, h₃.blobs, h₃.placements⟩, h₃.checkpoints, h₃.replicas⟩

theorem SameContent.content_filed {R : W → W → Prop} (h : SameContent R s s')
    (hs : ContentFiled s.store) : ContentFiled s'.store where
  entries := hs.entries.of_find fun d _ hfind => (h.dedup d).symm.trans hfind
  blobs := hs.blobs.of_map_eq h.blobs BlobDescriptor.id fun _ => rfl
  placements := hs.placements.of_find fun id _ hfind => (h.placements id).symm.trans hfind
  checkpoints := hs.checkpoints.of_map_eq h.checkpoints (fun r => r.descriptor.id) fun _ => rfl
  replicas := hs.replicas.of_map_eq h.replicas ReplicaDescriptor.id fun _ => rfl

end Steps

/-! ## Restarts -/

/-- What a load enters is filed under its own key, whatever the file holds. -/
theorem well_keyed_load_frame :
    LoadFrame fun st st' : Store W => WellKeyed st → WellKeyed st' where
  refl _ h := h
  trans _ _ _ h h' hst := h' (h hst)
  reset _ h := ⟨filed_empty _, filed_empty _, filed_empty _, filed_empty _, filed_empty _,
    filed_empty _, h.dedup⟩
  recount _ h := ⟨h.families, h.checkpoints, h.blobs, h.replicas, h.placements, h.retention,
    h.dedup⟩
  scalars _ _ _ _ _ _ _ _ h := ⟨h.families, h.checkpoints, h.blobs, h.replicas, h.placements,
    h.retention, h.dedup⟩
  family _ _ h := { h with families := Filed.emplace h.families rfl }
  record _ _ h := { h with checkpoints := Filed.emplace h.checkpoints rfl }
  blob _ _ h := { h with blobs := Filed.emplace h.blobs rfl }
  replica _ _ h := { h with replicas := Filed.emplace h.replicas rfl }
  placement _ _ h := { h with placements := Filed.emplace h.placements rfl }
  retention _ _ h := { h with retention := Filed.emplace h.retention rfl }
  dedup _ _ h := { h with dedup := Filed.assign h.dedup rfl }

theorem well_keyed_create (options : StoreOptions)
    (backends : UnorderedMap StorageBackendId (IBackend W)) :
    WellKeyed (Store.create options backends) :=
  ⟨filed_empty _, filed_empty _, filed_empty _, filed_empty _, filed_empty _, filed_empty _,
    filed_empty _⟩

/-- A restart files what it loads. -/
theorem well_keyed_reopened (env : Env) (options : StoreOptions)
    (backends : UnorderedMap StorageBackendId (IBackend W)) (s : System W) :
    WellKeyed (finalState (reopenStore env options backends s)).store := by
  obtain ⟨store, hfinal, hstore⟩ := well_keyed_load_frame.reopened env options backends s
  rw [hfinal]
  exact hstore (well_keyed_create options backends)

/-! ## Runs -/

theorem WellKeyed.content_filed {store : Store W} (h : WellKeyed store) : ContentFiled store :=
  ⟨⟨h.dedup, h.blobs, h.placements⟩, h.checkpoints, h.replicas⟩

theorem well_keyed_of {store : Store W} (h : ContentFiled store)
    (hfamilies : Filed (fun f => f.id) store.families)
    (hretention : Filed (fun p => p.id) store.retention) : WellKeyed store :=
  ⟨hfamilies, h.checkpoints, h.blobs, h.replicas, h.placements, hretention, h.entries⟩

/-- Families and policies stay filed. -/
theorem Registers.registry_filed {env : Env} {s s' : System W} {e : Event W}
    (h : Registers env s e s') (hs : WellKeyed s.store) :
    Filed (fun f => f.id) s'.store.families ∧ Filed (fun p => p.id) s'.store.retention := by
  cases h with
  | same h =>
      exact ⟨Filed.of_find hs.families fun id f hfind => (h.families id).symm.trans hfind,
        Filed.of_find hs.retention fun id p hfind => (h.retention id).symm.trans hfind⟩
  | created => exact ⟨Filed.emplace hs.families rfl, hs.retention⟩
  | policySet policy => exact ⟨hs.families, Filed.assign hs.retention rfl⟩
  | bootSet boot => exact ⟨hs.families, hs.retention⟩
  | published h =>
      rw [h.enrolled.families, h.enrolled.retention]
      exact ⟨filed_modify hs.families fun _ => rfl, hs.retention⟩
  | saved answers =>
      obtain ⟨files, hfiles⟩ := files_saved env answers s
      rw [hfiles]
      exact ⟨hs.families, hs.retention⟩
  | reopened options backends =>
      have hkeyed := well_keyed_reopened env options backends s
      exact ⟨hkeyed.families, hkeyed.retention⟩

/-- Every step keeps the tables filed. -/
theorem well_keyed_step {env : Env} {s s' : System W} {e : Event W}
    (h : Step env Anything s e s') (hs : WellKeyed s.store) : WellKeyed s'.store := by
  obtain ⟨hfamilies, hretention⟩ := (step_registers h).registry_filed hs
  refine well_keyed_of ?_ hfamilies hretention
  have hcontent := hs.content_filed
  cases step_transition (all_look_anything s) h with
  | quiet _ h => exact h.content_filed hcontent
  | published h => exact h.content_filed hcontent
  | publishFailed h => exact h.content_filed hcontent
  | gcRan h => exact h.content_filed hcontent
  | reopened =>
      cases h with
      | call => exact (well_keyed_reopened env _ _ s).content_filed

/-- In every state of every run, every record is filed under its own identity. -/
theorem well_keyed_run {env : Env} {s s' : System W} {events : List (Event W)}
    (hs : WellKeyed s.store) (hrun : Run (Step env Anything) s events s') : WellKeyed s'.store := by
  refine Run.invariant_on (A := fun _ => True) (fun _ s => WellKeyed s.store) hs ?_ hrun
    fun _ _ => trivial
  intro _ s₁ e s₂ _ hs₁ _ hstep
  exact well_keyed_step hstep hs₁

end CheckpointStore
