import CheckpointStore.Foundation.Filling
import CheckpointStore.Persistence.RoundTrip
import CheckpointStore.Persistence.StateFile

/-!
# Loading a saved state

What `load_state` makes of a file that `save_state` wrote. The store that was saved must be
`WellKeyed`: every record is filed under its own identity. `post_load_state` says that a fresh
store then loads the file exactly when the saved store was `Recoverable`, that is when no list
exceeds the bound of the reader and the body is not too long. It says also what the loaded store
is (`recovered`) and which records it can hold when the load throws.
-/

namespace CheckpointStore

open Foundation Foundation.Procedure Foundation.Decoding Foundation.UnorderedMap

variable {W α β : Type}

/-! ## Loading in steps -/

/-- From the store `store`, on bodies that go on with `bs`, the loader consumes `bs` and ends with
`store'` exactly when `ok` holds; otherwise it throws and leaves a store with `I`. -/
def Loads (m : Proc (Loading W) Unit) (bs : Bytes) (ok : Prop) (store store' : Store W)
    (I : Store W → Prop) : Prop :=
  Parses (fun ld => ld.reader.rest) (2 ^ 32) (fun ld => ld.store = store) m bs ok
    (fun _ ld => ld.store = store') (fun ld => I ld.store)

section Steps

variable {bs bs' : Bytes} {ok ok' : Prop} {store store₁ store₂ : Store W} {I : Store W → Prop}

theorem Loads.congr {m : Proc (Loading W) Unit} (h : Loads m bs ok store store₁ I)
    (hok : ok ↔ ok') : Loads m bs ok' store store₁ I :=
  h.mono (fun _ h => h) hok (fun _ _ h => h) (fun _ h => h)

theorem Loads.ends {m : Proc (Loading W) Unit} (h : Loads m bs ok store store₁ I)
    (hstore : store₁ = store₂) : Loads m bs ok store store₂ I :=
  hstore ▸ h

/-- A step that may be refused, and the rest. -/
theorem Loads.bind {m m' : Proc (Loading W) Unit} (h : Loads m bs ok store store₁ I)
    (h' : Loads m' bs' ok' store₁ store₂ I) :
    Loads (m >>= fun _ => m') (bs ++ bs') (ok ∧ ok') store store₂ I :=
  parses_bind h fun _ => h'

/-- A step that always succeeds, and the rest. -/
theorem Loads.step {m m' : Proc (Loading W) Unit} (h : Loads m bs True store store₁ I)
    (h' : Loads m' bs' ok store₁ store₂ I) :
    Loads (m >>= fun _ => m') (bs ++ bs') ok store store₂ I :=
  (h.bind h').congr (iff_of_eq (true_and _))

/-- A change of the store, and the rest. -/
theorem Loads.into {m' : Proc (Loading W) Unit} {f : Store W → Store W}
    (h' : Loads m' bs ok (f store) store₂ I) :
    Loads (loadInto f >>= fun _ => m') bs ok store store₂ I := by
  have h : Loads (loadInto f) [] True store (f store) I :=
    fun ld suffix hstore hrest _ => ⟨trivial, hrest, congrArg f hstore⟩
  exact h.step h'

/-- Reading a value that may be refused. -/
theorem parses_from_body {m : Proc BinReader α} {v : α} (h : Decodes m bs ok v) (hI : I store) :
    Parses (fun ld : Loading W => ld.reader.rest) (2 ^ 32) (fun ld => ld.store = store)
      (fromBody m) bs ok (fun a ld => a = v ∧ ld.store = store) (fun ld => I ld.store) := by
  have hzoom : Parses (fun ld : Loading W => ld.reader.rest) (2 ^ 32) (fun ld => ld.store = store)
      (fromBody m) bs ok (fun a ld => a = v ∧ ld.store = store) (fun ld => ld.store = store) :=
    parses_zoom (fun _ _ => rfl) (fun _ _ h => h) h
  refine hzoom.mono (fun _ h => h) Iff.rfl (fun _ _ h => h) fun ld hstore => ?_
  rw [hstore]
  exact hI

/-- Reading a value and assigning it. -/
theorem loads_field {m : Proc BinReader α} {v : α} (h : Decodes m bs True v)
    (assign : α → Store W → Store W) :
    Loads (loadField m assign) bs True store (assign v store) I := by
  intro ld suffix hstore hrest hlimit
  simp only [loadField, fromBody, loadInto, post_bind, post_zoom, post_modify]
  refine (h ld.reader suffix trivial hrest hlimit).mono (fun a r hr => ?_)
    (fun _ _ hr => absurd trivial hr.1)
  obtain ⟨_, hrest', rfl⟩ := hr
  exact ⟨trivial, hrest', congrArg (assign a) hstore⟩

end Steps

section Lists

variable {read : Proc BinReader β} {write : α → Bytes} {ok : α → Prop} {f : α → β}
  {taken : β → Store W → Bool} {enter : β → Store W → Store W} {I : Store W → Prop}

/-- The loop over a list whose elements are never refused as duplicates. When it throws, it has
entered the elements before the one that could not be read. -/
theorem loads_times (hread : ∀ x, Decodes read (write x) (ok x) (f x)) (message : String)
    {xs : List α} {store : Store W}
    (htaken : ∀ before x after, xs = before ++ x :: after →
      taken (f x) (enterAll enter (before.map f) store) = false)
    (hI : ∀ before after, xs = before ++ after → I (enterAll enter (before.map f) store)) :
    Loads (loadTimes (do
        let a ← fromBody read
        let ld ← get
        if taken a ld.store then throwStoreError .malformed message
        else loadInto (enter a)) xs.length)
      (xs.flatMap write) (∀ x ∈ xs, ok x) store (enterAll enter (xs.map f) store) I := by
  induction xs generalizing store with
  | nil =>
      intro ld suffix hstore hrest _
      exact ⟨by simp, hrest, hstore⟩
  | cons x rest ih =>
      have hfirst : taken (f x) store = false := htaken [] x rest rfl
      have hstart : I store := hI [] _ rfl
      have hstep : Loads (do
          let a ← fromBody read
          let ld ← get
          if taken a ld.store then throwStoreError .malformed message
          else loadInto (enter a)) (write x) (ok x) store (enter (f x) store) I := by
        rw [← List.append_nil (write x)]
        refine Parses.mono (parses_bind (parses_from_body (hread x) hstart)
          fun a => ?_) (fun _ h => h) (iff_of_eq (and_true (ok x))) (fun _ _ h => h) (fun _ h => h)
        rintro ld suffix ⟨rfl, hstore⟩ hrest _
        rw [post_bind, post_get, hstore, if_neg (show ¬ taken (f x) store = true by simp [hfirst])]
        exact ⟨trivial, hrest, congrArg (enter (f x)) hstore⟩
      have hrest := @ih (enter (f x) store)
        (fun before x' after h => htaken (x :: before) x' after (by rw [h]; rfl))
        (fun before after h => hI (x :: before) after (by rw [h]; rfl))
      exact (hstep.bind hrest).congr (by simp)

/-- A saved list is loaded if its elements are and none is taken. -/
theorem loads_list (hread : ∀ x, Decodes read (write x) (ok x) (f x))
    (hwrite : ∀ x, write x ≠ []) (message : String) {xs : List α} {store : Store W}
    (htaken : ∀ before x after, xs = before ++ x :: after →
      taken (f x) (enterAll enter (before.map f) store) = false)
    (hI : ∀ before after, xs = before ++ after → I (enterAll enter (before.map f) store)) :
    Loads (loadList read taken message enter) (BinWriter.list write xs)
      (xs.length ≤ BinReader.maxRecords ∧ ∀ x ∈ xs, ok x) store
      (enterAll enter (xs.map f) store) I := by
  intro ld suffix hstore hrest hlimit
  have hlength : xs.length < 2 ^ 32 := Nat.lt_of_le_of_lt (length_le_list_length hwrite xs) hlimit
  refine parses_bind (parses_from_body (decodes_count hlength) (hI [] xs rfl))
    (fun n => ?_) ld suffix hstore hrest hlimit
  rintro ld suffix ⟨rfl, hstore⟩ hrest hlimit
  exact loads_times hread message htaken hI ld suffix hstore hrest hlimit

end Lists

/-! ## Tables -/

section Tables

variable {K V : Type}

/-- Sorting keeps the values. -/
theorem sorted_perm (sortKey : V → UInt64) (m : UnorderedMap K V) :
    (sortedByKey sortKey m).Perm m.values :=
  List.perm_insertionSort _ _

variable [DecidableEq K] {sortKey : V → UInt64} {m : UnorderedMap K V}

/-- The sorted list of a table fits exactly when the table does. -/
theorem sorted_fits_iff {ok : V → Prop} :
    ((sortedByKey sortKey m).length ≤ BinReader.maxRecords ∧ ∀ v ∈ sortedByKey sortKey m, ok v) ↔
      m.size ≤ BinReader.maxRecords ∧ ∀ k v, m.find k = some v → ok v := by
  have hlength : (sortedByKey sortKey m).length = m.size := by
    rw [(sorted_perm sortKey m).length_eq, values, List.length_map, size]
  rw [hlength]
  refine and_congr_right fun _ => ⟨fun h k v hfind => ?_, fun h v hv => ?_⟩
  · exact h v ((sorted_perm sortKey m).mem_iff.mpr (mem_values.mpr ⟨k, hfind⟩))
  · obtain ⟨k, hfind⟩ := mem_values.mp ((sorted_perm sortKey m).mem_iff.mp hv)
    exact h k v hfind

variable {read : Proc BinReader V} {write : V → Bytes} {ok : V → Prop} {f : V → V}
  {table : Store W → UnorderedMap K V} {key : V → K} {enter : V → Store W → Store W}
  {I : Store W → Prop}

/-- A saved table is read into an empty one. -/
theorem loads_table (henter : EntersIn table key enter)
    (hread : ∀ v, Decodes read (write v) (ok v) (f v)) (hwrite : ∀ v, write v ≠ [])
    (message : String) (hkey : ∀ k v, m.find k = some v → key v = k)
    (hf : ∀ v, key (f v) = key v) {store : Store W} (hempty : ∀ k, (table store).find k = none)
    (hI : ∀ before after, sortedByKey sortKey m = before ++ after →
      I (enterAll enter (before.map f) store)) :
    Loads (loadList read (fun v store => (table store).contains (key v)) message enter)
      (BinWriter.list write (sortedByKey sortKey m))
      (m.size ≤ BinReader.maxRecords ∧ ∀ k v, m.find k = some v → ok v) store
      (enterAll enter ((sortedByKey sortKey m).map f) store) I := by
  refine (loads_list hread hwrite message (fun before v after hlist => ?_) hI).congr
    sorted_fits_iff
  have hnodup := perm_keys_nodup hkey hf ((sorted_perm sortKey m).map f)
  have hsplit : (sortedByKey sortKey m).map f = before.map f ++ f v :: after.map f := by
    rw [hlist, List.map_append, List.map_cons]
  exact contains_eq_false_iff.mpr (not_taken henter hnodup hempty hsplit)

end Tables

/-! ## The saved store -/

/-- Every record is filed under its own identity. -/
structure WellKeyed (store : Store W) : Prop where
  families : ∀ id f, store.families.find id = some f → f.id = id
  checkpoints : ∀ id rec, store.checkpoints.find id = some rec → rec.descriptor.id = id
  blobs : ∀ id b, store.blobs.find id = some b → b.id = id
  replicas : ∀ id r, store.replicas.find id = some r → r.id = id
  placements : ∀ id p, store.placements.find id = some p → p.id = id
  retention : ∀ id p, store.retention.find id = some p → p.id = id
  dedup : ∀ d e, store.dedup.entries.find d = some e → e.digest = d

/-- No container of the store has more elements than are read back. -/
structure Store.Fits (store : Store W) : Prop where
  families : store.families.size ≤ BinReader.maxRecords ∧
    ∀ id f, store.families.find id = some f → f.Fits
  checkpoints : store.checkpoints.size ≤ BinReader.maxRecords ∧
    ∀ id rec, store.checkpoints.find id = some rec → rec.Fits
  blobs : store.blobs.size ≤ BinReader.maxRecords ∧
    ∀ id b, store.blobs.find id = some b → b.Fits
  replicas : store.replicas.size ≤ BinReader.maxRecords
  placements : store.placements.size ≤ BinReader.maxRecords
  retention : store.retention.size ≤ BinReader.maxRecords
  dedup : store.dedup.size ≤ BinReader.maxRecords

/-- The scalar fields of a saved store, assigned to another one. -/
def headerLoaded (saved store : Store W) : Store W :=
  { store with
    coordinatorEpoch := saved.coordinatorEpoch
    options := { store.options with bootId := saved.options.bootId }
    nextIdCounter := saved.nextIdCounter
    counters := { store.counters with
      integrityFailures := saved.counters.integrityFailures
      staleRejections := saved.counters.staleRejections
      duplicateRejections := saved.counters.duplicateRejections
      workerRestarts := saved.counters.workerRestarts
      reclaimedBlobs := saved.counters.reclaimedBlobs
      reclaimedBytes := saved.counters.reclaimedBytes
      restoredBytes := saved.counters.restoredBytes } }

/-- The store with the saved state of the collector. -/
def gcLoaded (saved store : Store W) : Store W :=
  { store with gc := { store.gc with
      epoch := saved.gc.epoch
      generation := saved.gc.generation
      phase := saved.gc.phase
      markedBytes := saved.gc.markedBytes
      reclaimedBytes := saved.gc.reclaimedBytes } }

/-- A dedup entry as it is read back; its digest is the key it was filed under. -/
def refiled (entry : Digest × DedupEntry) : DedupEntry := { entry.2 with digest := entry.1 }

section Saved

variable {saved store : Store W} {I : Store W → Prop}

/-- The saved header is loaded. -/
theorem loads_header : Loads loadHeader (headerBytes saved) True store
    (headerLoaded saved store) I := by
  unfold headerBytes
  simp only [List.append_assoc]
  refine Loads.ends ((loads_field (decodes_u64 _) _).step <| (loads_field (decodes_id _) _).step <|
    (loads_field (decodes_u64 _) _).step <| (loads_field (decodes_u64 _) _).step <|
    (loads_field (decodes_u64 _) _).step <| (loads_field (decodes_u64 _) _).step <|
    (loads_field (decodes_u64 _) _).step <| (loads_field (decodes_u64 _) _).step <|
    (loads_field (decodes_u64 _) _).step <| loads_field (decodes_u64 _) _) ?_
  simp only [headerLoaded, Store.withCounters]

/-- So is the saved state of the collector. -/
theorem loads_gc : Loads loadGc (gcBytes saved.gc) True store (gcLoaded saved store) I := by
  unfold gcBytes
  simp only [List.append_assoc]
  refine Loads.ends ((loads_field (decodes_id _) _).step <|
    (loads_field (decodes_generation _) _).step <| (loads_field (decodes_enum _) _).step <|
    (loads_field (decodes_u64 _) _).step <| loads_field (decodes_u64 _) _) ?_
  simp only [gcLoaded, Store.withGc]

open Decodes in
theorem decodes_dedup (entry : Digest × DedupEntry) :
    Decodes BinReader.readDedup (BinWriter.writeDedup entry) True (refiled entry) := by
  unfold BinWriter.writeDedup
  simp only [List.append_assoc]
  exact field (decodes_sha256 _) <| field (decodes_u64 _) <| field (decodes_u64 _) <|
    field (decodes_enum _) <| field (decodes_id _) <| last (decodes_generation _) rfl

end Saved

/-! ## The store that is rebuilt -/

section Enter

variable (store : Store W)

/-- The store with other families. -/
def Store.setFamilies (families : UnorderedMap CheckpointFamilyId FamilyRecord)
    (next : UnorderedMap CheckpointFamilyId CheckpointGeneration) : Store W :=
  { store with families := families, nextCheckpointGeneration := next }

/-- The store with other records. -/
def Store.setCheckpoints (checkpoints : UnorderedMap CheckpointId CheckpointRecord)
    (next : UnorderedMap CheckpointFamilyId CheckpointGeneration) : Store W :=
  { store with checkpoints := checkpoints, nextCheckpointGeneration := next }

/-- The store with other blobs. -/
def Store.setBlobs (blobs : UnorderedMap BlobId BlobDescriptor) : Store W :=
  { store with blobs := blobs }

/-- The store with other replicas. -/
def Store.setReplicas (replicas : UnorderedMap ReplicaId ReplicaDescriptor) : Store W :=
  { store with replicas := replicas }

/-- The store with other placements. -/
def Store.setPlacements (placements : UnorderedMap PlacementId PlacementDescriptor) : Store W :=
  { store with placements := placements }

/-- The store with other policies. -/
def Store.setRetention (retention : UnorderedMap RetentionPolicyId RetentionPolicy) : Store W :=
  { store with retention := retention }

/-- The store with another dedup table. -/
def Store.setDedup (dedup : DedupTable) : Store W := { store with dedup := dedup }

/-- The next generations after families have been entered. -/
def firstGenerations (fs : List FamilyRecord)
    (next : UnorderedMap CheckpointFamilyId CheckpointGeneration) :
    UnorderedMap CheckpointFamilyId CheckpointGeneration :=
  enterAll (fun f next => next.assign f.id ⟨1⟩) fs next

/-- Raise the next generation of a family to that of one of its records. -/
def raiseNext (rec : CheckpointRecord)
    (next : UnorderedMap CheckpointFamilyId CheckpointGeneration) :
    UnorderedMap CheckpointFamilyId CheckpointGeneration :=
  next.assign rec.descriptor.familyId
    (if ((next.find rec.descriptor.familyId).getD {}).precedes rec.descriptor.generation then
      rec.descriptor.generation else (next.find rec.descriptor.familyId).getD {})

/-- Entered families are filed, and their next generations start at 1. -/
theorem enter_all_family (fs : List FamilyRecord) :
    enterAll enterFamily fs store =
      store.setFamilies (fileAll (fun f => f.id) fs store.families)
        (firstGenerations fs store.nextCheckpointGeneration) := by
  induction fs generalizing store with
  | nil => rfl
  | cons f rest ih => exact ih (enterFamily f store)

/-- Entered records are filed, and raise the next generations. -/
theorem enter_all_record (recs : List CheckpointRecord) :
    enterAll enterRecord recs store =
      store.setCheckpoints (fileAll (fun rec => rec.descriptor.id) recs store.checkpoints)
        (enterAll raiseNext recs store.nextCheckpointGeneration) := by
  induction recs generalizing store with
  | nil => rfl
  | cons rec rest ih => exact ih (enterRecord rec store)

/-- Entered blobs are filed. -/
theorem enter_all_blob (bs : List BlobDescriptor) :
    enterAll enterBlob bs store = store.setBlobs (fileAll (fun b => b.id) bs store.blobs) := by
  induction bs generalizing store with
  | nil => rfl
  | cons b rest ih => exact ih (enterBlob b store)

/-- Entered replicas are filed. -/
theorem enter_all_replica (rs : List ReplicaDescriptor) :
    enterAll enterReplica rs store =
      store.setReplicas (fileAll (fun r => r.id) rs store.replicas) := by
  induction rs generalizing store with
  | nil => rfl
  | cons r rest ih => exact ih (enterReplica r store)

/-- Entered placements are filed. -/
theorem enter_all_placement (ps : List PlacementDescriptor) :
    enterAll enterPlacement ps store =
      store.setPlacements (fileAll (fun p => p.id) ps store.placements) := by
  induction ps generalizing store with
  | nil => rfl
  | cons p rest ih => exact ih (enterPlacement p store)

/-- Entered policies are filed. -/
theorem enter_all_retention (ps : List RetentionPolicy) :
    enterAll enterRetention ps store =
      store.setRetention (fileAll (fun p => p.id) ps store.retention) := by
  induction ps generalizing store with
  | nil => rfl
  | cons p rest ih => exact ih (enterRetention p store)

/-- Entered dedup entries are inserted as they are. -/
theorem enter_all_dedup (es : List DedupEntry) :
    enterAll enterDedup es store =
      store.setDedup (enterAll (fun e t => t.insertBlobEntryDirect e) es store.dedup) := by
  induction es generalizing store with
  | nil => rfl
  | cons e rest ih => exact ih (enterDedup e store)

end Enter

/-- The checkpoint records as they are read back. -/
def savedRecords (period : ClockPeriod) (saved : Store W) : List CheckpointRecord :=
  (sortedByKey (fun r => r.descriptor.id.value) saved.checkpoints).map
    (CheckpointRecord.truncated period)

/-- The next generations that are rebuilt from the families and the records. -/
def rebuiltGenerations (period : ClockPeriod) (saved : Store W)
    (next : UnorderedMap CheckpointFamilyId CheckpointGeneration) :
    UnorderedMap CheckpointFamilyId CheckpointGeneration :=
  (enterAll raiseNext (savedRecords period saved)
    (firstGenerations (sortedByKey (fun f => f.id.value) saved.families) next)).mapValues
      fun _ ng => ng.next

/-- The dedup table that is rebuilt from the saved entries. -/
def rebuiltDedup (saved : Store W) (dedup : DedupTable) : DedupTable :=
  enterAll (fun e t => t.insertBlobEntryDirect e) ((sortedDedup saved.dedup).map refiled) dedup

/-- The store that `load_state` builds from the body of a saved store, up to the counters that
are recomputed at the end. -/
def recovered (period : ClockPeriod) (saved store : Store W) : Store W :=
  { headerLoaded saved (resetForLoad store) with
    families := fileAll (fun f => f.id) (sortedByKey (fun f => f.id.value) saved.families) ∅
    checkpoints := fileAll (fun r => r.descriptor.id) (savedRecords period saved) ∅
    nextCheckpointGeneration := rebuiltGenerations period saved store.nextCheckpointGeneration
    blobs := fileAll (fun b => b.id) (sortedByKey (fun b => b.id.value) saved.blobs) ∅
    replicas := fileAll (fun r => r.id) (sortedByKey (fun r => r.id.value) saved.replicas) ∅
    placements := fileAll (fun p => p.id) (sortedByKey (fun p => p.id.value) saved.placements) ∅
    retention := fileAll (fun p => p.id) (sortedByKey (fun p => p.id.value) saved.retention) ∅
    gc := { ({} : GcState) with
      epoch := saved.gc.epoch
      generation := saved.gc.generation
      phase := saved.gc.phase
      markedBytes := saved.gc.markedBytes
      reclaimedBytes := saved.gc.reclaimedBytes }
    dedup := rebuiltDedup saved store.dedup }

/-- Every record is one of the saved records, as it is read back. -/
def HoldsSaved (period : ClockPeriod) (saved store : Store W) : Prop :=
  ∀ id rec, store.checkpoints.find id = some rec →
    ∃ rec', saved.checkpoints.find id = some rec' ∧ rec = rec'.truncated period

/-- Records filed from a part of the saved list are saved records. -/
theorem holds_saved_of_filed {period : ClockPeriod} {saved store : Store W}
    (hkeyed : WellKeyed saved) {before after : List CheckpointRecord}
    (hlist : sortedByKey (fun r => r.descriptor.id.value) saved.checkpoints = before ++ after)
    (hstore : store.checkpoints = fileAll (fun r => r.descriptor.id)
      (before.map (CheckpointRecord.truncated period)) ∅) : HoldsSaved period saved store := by
  intro id rec hfind
  have hperm := sorted_perm (fun r : CheckpointRecord => r.descriptor.id.value) saved.checkpoints
  have hnodup : ((before.map (CheckpointRecord.truncated period)).map
      fun r => r.descriptor.id).Nodup := by
    have hall := perm_keys_nodup (f := CheckpointRecord.truncated period) hkeyed.checkpoints
      (fun _ => rfl) (hperm.map _)
    rw [hlist, List.map_append, List.map_append] at hall
    exact (List.nodup_append.mp hall).1
  rw [hstore] at hfind
  obtain ⟨hin, hid⟩ := mem_of_find_enter_all (enters_in_emplace _) hnodup (fun _ => rfl) hfind
  obtain ⟨rec', hrec', rfl⟩ := List.mem_map.mp hin
  have hvalue : rec' ∈ saved.checkpoints.values :=
    hperm.mem_iff.mp (hlist ▸ List.mem_append_left _ hrec')
  obtain ⟨id', hfind'⟩ := mem_values.mp hvalue
  have hid' : id' = id := (hkeyed.checkpoints _ _ hfind').symm.trans hid
  exact ⟨rec', hid' ▸ hfind', rfl⟩

section LoadTables

variable {K V : Type} [DecidableEq K] {m : UnorderedMap K V}
  {read : Proc BinReader V} {write : V → Bytes} {ok : V → Prop}
  {table : Store W → UnorderedMap K V} {key : V → K} {enter : V → Store W → Store W}
  {store : Store W} {I : Store W → Prop}

/-- A saved table whose values are read back unchanged. -/
theorem loads_table_self (sortKey : V → UInt64) (henter : EntersIn table key enter)
    (hread : ∀ v, Decodes read (write v) (ok v) v) (hwrite : ∀ v, write v ≠ [])
    (message : String) (hkey : ∀ k v, m.find k = some v → key v = k)
    (hempty : table store = ∅) (hI : ∀ vs, I (enterAll enter vs store)) :
    Loads (loadList read (fun v store => (table store).contains (key v)) message enter)
      (BinWriter.list write (sortedByKey sortKey m))
      (m.size ≤ BinReader.maxRecords ∧ ∀ k v, m.find k = some v → ok v) store
      (enterAll enter (sortedByKey sortKey m) store) I :=
  Loads.ends (loads_table henter hread hwrite message hkey (fun _ => rfl)
    (fun k => by rw [hempty]; rfl) fun before _ _ => hI _) (by rw [List.map_id'])

/-- The same, for an `enter` that only files the value in the table. -/
theorem loads_table_into (sortKey : V → UInt64) {set : UnorderedMap K V → Store W}
    (hset : ∀ vs, enterAll enter vs store = set (fileAll key vs (table store)))
    (henter : EntersIn table key enter)
    (hread : ∀ v, Decodes read (write v) (ok v) v) (hwrite : ∀ v, write v ≠ [])
    (message : String) (hkey : ∀ k v, m.find k = some v → key v = k)
    (hempty : table store = ∅) (hI : ∀ table', I (set table')) :
    Loads (loadList read (fun v store => (table store).contains (key v)) message enter)
      (BinWriter.list write (sortedByKey sortKey m))
      (m.size ≤ BinReader.maxRecords ∧ ∀ k v, m.find k = some v → ok v) store
      (set (fileAll key (sortedByKey sortKey m) ∅)) I :=
  Loads.ends (loads_table_self sortKey henter hread hwrite message hkey hempty
    fun vs => (hset vs).symm ▸ hI _) (by rw [hset, hempty])

theorem family_ne_nil (f : FamilyRecord) : BinWriter.writeFamily f ≠ [] := by
  simp only [BinWriter.writeFamily, List.append_assoc]
  exact List.append_ne_nil_of_left_ne_nil (id_ne_nil _) _

theorem descriptor_ne_nil (period : ClockPeriod) (d : CheckpointDescriptor) :
    BinWriter.writeDescriptor period d ≠ [] := by
  unfold BinWriter.writeDescriptor
  simp only [List.append_assoc]
  exact List.append_ne_nil_of_left_ne_nil (id_ne_nil _) _

/-- A written record is not empty. -/
theorem record_ne_nil (period : ClockPeriod) (r : CheckpointRecord) :
    BinWriter.writeRecord period r ≠ [] := by
  simp only [BinWriter.writeRecord, List.append_assoc]
  exact List.append_ne_nil_of_left_ne_nil (descriptor_ne_nil _ _) _

theorem blob_descriptor_ne_nil (b : BlobDescriptor) : BinWriter.writeBlobDescriptor b ≠ [] := by
  simp only [BinWriter.writeBlobDescriptor, List.append_assoc]
  exact List.append_ne_nil_of_left_ne_nil (id_ne_nil _) _

theorem replica_ne_nil (r : ReplicaDescriptor) : BinWriter.writeReplica r ≠ [] := by
  simp only [BinWriter.writeReplica, List.append_assoc]
  exact List.append_ne_nil_of_left_ne_nil (id_ne_nil _) _

theorem placement_ne_nil (p : PlacementDescriptor) : BinWriter.writePlacement p ≠ [] := by
  simp only [BinWriter.writePlacement, List.append_assoc]
  exact List.append_ne_nil_of_left_ne_nil (id_ne_nil _) _

theorem retention_ne_nil (p : RetentionPolicy) : BinWriter.writeRetention p ≠ [] := by
  simp only [BinWriter.writeRetention, List.append_assoc]
  exact List.append_ne_nil_of_left_ne_nil (id_ne_nil _) _

theorem dedup_ne_nil (entry : Digest × DedupEntry) : BinWriter.writeDedup entry ≠ [] := by
  simp only [BinWriter.writeDedup, List.append_assoc]
  refine List.append_ne_nil_of_left_ne_nil (List.ne_nil_of_length_pos ?_) _
  rw [BinWriter.sha256, entry.1.length_eq]
  decide

/-- The digests of the sorted entries are different. -/
theorem sorted_dedup_keys_nodup (t : DedupTable) :
    (((sortedDedup t).map refiled).map fun e => e.digest).Nodup := by
  rw [List.map_map, show (fun e : DedupEntry => e.digest) ∘ refiled = Prod.fst from rfl]
  exact ((List.perm_insertionSort _ _).map Prod.fst).nodup_iff.mpr t.entries.keys_nodup

/-- A family is entered under its identity. -/
theorem enters_in_families :
    EntersIn (fun store : Store W => store.families) (fun f => f.id) enterFamily :=
  fun v st => enters_in_emplace (fun f : FamilyRecord => f.id) v st.families

/-- A record is entered under its identity. -/
theorem enters_in_checkpoints :
    EntersIn (fun store : Store W => store.checkpoints) (fun r => r.descriptor.id) enterRecord :=
  fun v st => enters_in_emplace (fun r : CheckpointRecord => r.descriptor.id) v st.checkpoints

theorem enters_in_blobs :
    EntersIn (fun store : Store W => store.blobs) (fun b => b.id) enterBlob :=
  fun v st => enters_in_emplace (fun b : BlobDescriptor => b.id) v st.blobs

theorem enters_in_replicas :
    EntersIn (fun store : Store W => store.replicas) (fun r => r.id) enterReplica :=
  fun v st => enters_in_emplace (fun r : ReplicaDescriptor => r.id) v st.replicas

theorem enters_in_placements :
    EntersIn (fun store : Store W => store.placements) (fun p => p.id) enterPlacement :=
  fun v st => enters_in_emplace (fun p : PlacementDescriptor => p.id) v st.placements

theorem enters_in_retention :
    EntersIn (fun store : Store W => store.retention) (fun p => p.id) enterRetention :=
  fun v st => enters_in_emplace (fun p : RetentionPolicy => p.id) v st.retention

/-- A dedup entry is entered under its digest. -/
theorem enters_in_dedup :
    EntersIn (fun store : Store W => store.dedup.entries) (fun e => e.digest) enterDedup :=
  fun e store _ d => DedupTable.find_insert_blob_entry_direct store.dedup e d

/-- The saved dedup table is loaded into an empty one. -/
theorem loads_dedup {saved : Store W} (hempty : ∀ d, store.dedup.entries.find d = none)
    (hI : ∀ dedup, I (store.setDedup dedup)) :
    Loads loadDedup (BinWriter.list BinWriter.writeDedup (sortedDedup saved.dedup))
      (saved.dedup.size ≤ BinReader.maxRecords) store
      (store.setDedup (rebuiltDedup saved store.dedup)) I := by
  have hlength : (sortedDedup saved.dedup).length = saved.dedup.size :=
    (List.perm_insertionSort _ _).length_eq
  refine ((loads_list decodes_dedup dedup_ne_nil _ (fun before entry after hlist => ?_)
    fun before _ _ => ?_).congr (by simp [hlength])).ends (enter_all_dedup store _)
  · have hsplit : (sortedDedup saved.dedup).map refiled =
        before.map refiled ++ refiled entry :: after.map refiled := by
      rw [hlist, List.map_append, List.map_cons]
    exact contains_eq_false_iff.mpr
      (not_taken enters_in_dedup (sorted_dedup_keys_nodup saved.dedup) hempty hsplit)
  · rw [enter_all_dedup]
    exact hI _

end LoadTables

section Stages

variable {saved store : Store W} {I : Store W → Prop}

/-- The saved families are loaded. -/
theorem loads_families (hkeyed : WellKeyed saved) (hempty : store.families = ∅)
    (hI : ∀ families next, I (store.setFamilies families next)) :
    Loads loadFamilies
      (BinWriter.list BinWriter.writeFamily (sortedByKey (fun f => f.id.value) saved.families))
      (saved.families.size ≤ BinReader.maxRecords ∧
        ∀ id f, saved.families.find id = some f → f.Fits) store
      (store.setFamilies
        (fileAll (fun f => f.id) (sortedByKey (fun f => f.id.value) saved.families) ∅)
        (firstGenerations (sortedByKey (fun f => f.id.value) saved.families)
          store.nextCheckpointGeneration)) I :=
  Loads.ends (loads_table_self _ enters_in_families
    decodes_family family_ne_nil _ hkeyed.families hempty
    fun fs => (enter_all_family store fs).symm ▸ hI _ _) (by rw [enter_all_family, hempty])

/-- The saved records are loaded. -/
theorem loads_records {period : ClockPeriod} (hkeyed : WellKeyed saved)
    (hempty : store.checkpoints = ∅) :
    Loads (loadRecords period)
      (BinWriter.list (BinWriter.writeRecord period)
        (sortedByKey (fun r => r.descriptor.id.value) saved.checkpoints))
      (saved.checkpoints.size ≤ BinReader.maxRecords ∧
        ∀ id rec, saved.checkpoints.find id = some rec → rec.Fits) store
      (store.setCheckpoints (fileAll (fun r => r.descriptor.id) (savedRecords period saved) ∅)
        (enterAll raiseNext (savedRecords period saved) store.nextCheckpointGeneration))
      (HoldsSaved period saved) := by
  refine Loads.ends (loads_table enters_in_checkpoints
    (decodes_record period) (record_ne_nil period) _ hkeyed.checkpoints (fun _ => rfl)
    (fun k => by rw [hempty]; rfl) fun before after hlist => ?_) (by
      rw [enter_all_record, hempty]; rfl)
  exact holds_saved_of_filed hkeyed hlist (by rw [enter_all_record, hempty]; rfl)

end Stages

/-- What is read from a saved body, for any outcome of the last table. Whatever is entered before a
throw was saved. -/
theorem loads_tables_with (period : ClockPeriod) {saved store : Store W} {okd : Prop}
    {dedup : DedupTable} (hkeyed : WellKeyed saved)
    (hokd : okd → saved.dedup.size ≤ BinReader.maxRecords)
    (hdedup : ∀ {st : Store W} {I : Store W → Prop}, st.dedup = store.dedup →
      (∀ dedup', I (st.setDedup dedup')) →
      Loads loadDedup (BinWriter.list BinWriter.writeDedup (sortedDedup saved.dedup)) okd st
        (st.setDedup dedup) I) :
    Loads (loadTables period) (stateBody period saved) (saved.Fits ∧ okd) store
      { recovered period saved store with dedup := dedup } (HoldsSaved period saved) := by
  -- Before the records are read there are none, afterwards they stay as they are.
  have hnone : ∀ st : Store W, st.checkpoints = ∅ → HoldsSaved period saved st :=
    fun st h => holds_saved_of_filed hkeyed (List.nil_append _).symm h
  have hall : ∀ st : Store W, st.checkpoints = fileAll (fun r => r.descriptor.id)
      (savedRecords period saved) ∅ → HoldsSaved period saved st :=
    fun st h => holds_saved_of_filed hkeyed (List.append_nil _).symm h
  unfold stateBody loadTables
  simp only [List.append_assoc]
  refine Loads.congr (Loads.ends (Loads.into <| loads_header.step <|
    (loads_families hkeyed rfl fun _ _ => hnone _ rfl).bind <|
    (loads_records hkeyed rfl).bind <| Loads.into <|
    (loads_table_into _ (enter_all_blob _) enters_in_blobs decodes_blob_descriptor
      blob_descriptor_ne_nil _ hkeyed.blobs rfl fun _ => hall _ rfl).bind <|
    (loads_table_into _ (enter_all_replica _) enters_in_replicas decodes_replica
      replica_ne_nil _ hkeyed.replicas rfl fun _ => hall _ rfl).bind <|
    (loads_table_into _ (enter_all_placement _) enters_in_placements decodes_placement
      placement_ne_nil _ hkeyed.placements rfl fun _ => hall _ rfl).bind <|
    (loads_table_into _ (enter_all_retention _) enters_in_retention decodes_retention
      retention_ne_nil _ hkeyed.retention rfl fun _ => hall _ rfl).bind <|
    loads_gc.step <| hdedup rfl fun _ => hall _ rfl) rfl) ?_
  constructor
  · rintro ⟨hf, hc, hb, hr, hp, ht, hd⟩
    exact ⟨⟨hf, hc, hb, hr.1, hp.1, ht.1, hokd hd⟩, hd⟩
  · rintro ⟨⟨hf, hc, hb, hr, hp, ht, -⟩, hd⟩
    exact ⟨hf, hc, hb, ⟨hr, by simp⟩, ⟨hp, by simp⟩, ⟨ht, by simp⟩, hd⟩

/-- A store without dedup entries reads all of a saved body, exactly when the saved store fits. -/
theorem loads_tables (period : ClockPeriod) {saved store : Store W} (hkeyed : WellKeyed saved)
    (hdedup : ∀ d, store.dedup.entries.find d = none) :
    Loads (loadTables period) (stateBody period saved) saved.Fits store
      (recovered period saved store) (HoldsSaved period saved) := by
  refine (loads_tables_with period hkeyed (fun h => h) fun hst hI => ?_).congr
    (and_iff_left_of_imp fun h => h.dedup)
  rw [← hst]
  exact loads_dedup (by rw [hst]; exact hdedup) hI

end CheckpointStore
