import CheckpointStore.Persistence.Parsing
import CheckpointStore.Safety.Recovered

/-!
# Rejected state files

`load_state` checks the frame of a file before it touches the store, and then rebuilds the store
while it reads the body, so a body that is rejected half way leaves what was assigned before the
throw. A store that counts anything always loses its counters (`unsaved_after_throw`). A blank
store, such as one that has just been created, has nothing to lose but its own values: it stays as
it was as long as the body repeats them, which `repeatsStore` reads off the body alone.
-/

namespace CheckpointStore

open Foundation Foundation.Procedure Foundation.UnorderedMap

variable {W α β γ : Type}

/-! ## Bodies that repeat a blank store -/

/-- A store that is already as `load_state` resets it, and whose next generations and dedup entries
are empty. -/
structure Store.Blank (store : Store W) : Prop where
  reset : resetForLoad store = store
  next : store.nextCheckpointGeneration = ∅
  dedup : ∀ d, store.dedup.find d = none

/-- A new store is blank. -/
theorem blank_create (options : StoreOptions)
    (backends : UnorderedMap StorageBackendId (IBackend W)) :
    (Store.create options backends).Blank :=
  ⟨rfl, rfl, fun _ => rfl⟩

/-- Read a value and compare it with the one that the store has. -/
def ownValue [DecidableEq α] (read : Proc BinReader α) (own : α) : Proc BinReader Bool := do
  let v ← read
  pure (decide (v = own))

/-- Read the length of a list, and the first element if there is one. -/
def noElement (read : Proc BinReader α) : Proc BinReader Bool := do
  let n ← BinReader.count
  match n with
  | 0 => pure true
  | _ + 1 => do
      let _ ← read
      pure false

/-- Make a second check if the first one passes. -/
def andThen (first second : Proc BinReader Bool) : Proc BinReader Bool := do
  let same ← first
  if same then second else pure false

/-- Make checks one after the other, up to the first that fails. -/
def allOf (checks : List (Proc BinReader Bool)) : Proc BinReader Bool :=
  checks.foldl andThen (pure true)

/-- The body repeats a blank store: its scalars are those of the store and its lists are empty. The
check throws where the body cannot be read on. -/
def repeatsStore (period : ClockPeriod) (store : Store W) : Proc BinReader Bool :=
  allOf [ownValue BinReader.u64 store.coordinatorEpoch.value,
    ownValue BinReader.id store.options.bootId,
    ownValue BinReader.u64 store.nextIdCounter,
    ownValue BinReader.u64 store.counters.integrityFailures,
    ownValue BinReader.u64 store.counters.staleRejections,
    ownValue BinReader.u64 store.counters.duplicateRejections,
    ownValue BinReader.u64 store.counters.workerRestarts,
    ownValue BinReader.u64 store.counters.reclaimedBlobs,
    ownValue BinReader.u64 store.counters.reclaimedBytes,
    ownValue BinReader.u64 store.counters.restoredBytes,
    noElement BinReader.readFamily, noElement (BinReader.readRecord period),
    noElement BinReader.readBlobDescriptor, noElement BinReader.readReplica,
    noElement BinReader.readPlacement, noElement BinReader.readRetention,
    ownValue BinReader.id store.gc.epoch, ownValue BinReader.generation store.gc.generation,
    ownValue BinReader.enum store.gc.phase, ownValue BinReader.u64 store.gc.markedBytes,
    ownValue BinReader.u64 store.gc.reclaimedBytes, noElement BinReader.readDedup]

/-! ## Loaders and checks -/

/-- Two stores that agree in a part. -/
def SamePart (part : Store W → β) (st st' : Store W) : Prop := part st' = part st

instance (part : Store W → β) : Std.Refl (OnStore (SamePart part)) := ⟨fun _ => rfl⟩

instance (part : Store W → β) : IsTrans (Loading W) (OnStore (SamePart part)) :=
  ⟨fun _ _ _ h h' => h'.trans h⟩

/-- Every key that is taken in a table stays taken. -/
def KeepsKeys {K : Type} [DecidableEq K] (table : Store W → UnorderedMap K α) (st st' : Store W) :
    Prop :=
  ∀ k, (table st).find k ≠ none → (table st').find k ≠ none

instance {K : Type} [DecidableEq K] (table : Store W → UnorderedMap K α) :
    Std.Refl (OnStore (KeepsKeys table)) := ⟨fun _ _ h => h⟩

instance {K : Type} [DecidableEq K] (table : Store W → UnorderedMap K α) :
    IsTrans (Loading W) (OnStore (KeepsKeys table)) := ⟨fun _ _ _ h h' k hk => h' k (h k hk)⟩

/-- Run on the store `own`, the loader `m` leaves it alone where the check passes or throws, and
changes `part` of it where the check fails. -/
def Detects (own : Store W) (part : Store W → β) (m : Proc (Loading W) Unit)
    (c : Proc BinReader Bool) : Prop :=
  ∀ r, match c r with
    | .error e r' => m ⟨r, own⟩ = .error e ⟨r', own⟩
    | .ok true r' => m ⟨r, own⟩ = .ok () ⟨r', own⟩
    | .ok false _ => Post m ⟨r, own⟩ (fun _ ld => part ld.store ≠ part own)
        fun _ ld => part ld.store ≠ part own

theorem from_body_error {read : Proc BinReader α} {r r' : BinReader} {e : Exn}
    (h : read r = .error e r') (store : Store W) :
    fromBody read ⟨r, store⟩ = .error e ⟨r', store⟩ := by
  simp only [fromBody, zoom, h]

section Detects

variable {own : Store W} {part : Store W → β} {part' : Store W → γ} {m m' : Proc (Loading W) Unit}
  {c c' : Proc BinReader Bool}

/-- A loader follows another one that has left its part to it. -/
theorem Detects.bind (h : Detects own part m c) (h' : Detects own part' m' c')
    (hkeeps : Keeps (OnStore (SamePart part)) m') :
    Detects own (fun st => (part st, part' st)) (m >>= fun _ => m') (andThen c c') := by
  intro r
  have hr := h r
  unfold andThen
  cases hc : c r with
  | error e r' =>
      rw [hc] at hr
      rw [bind_of_error hc]
      exact bind_of_error hr _
  | ok same r' =>
      rw [hc] at hr
      rw [bind_of_ok hc]
      cases same with
      | true =>
          have hr' := h' r'
          have hrun : (m >>= fun _ => m') ⟨r, own⟩ = m' ⟨r', own⟩ := bind_of_ok hr _
          rw [if_pos rfl]
          cases hc' : c' r' with
          | error e r'' =>
              rw [hc'] at hr'
              exact hrun.trans hr'
          | ok same' r'' =>
              rw [hc'] at hr'
              cases same' with
              | true => exact hrun.trans hr'
              | false =>
                  show Post (m >>= fun _ => m') ⟨r, own⟩ _ _
                  unfold Post
                  rw [hrun]
                  exact hr'.mono (fun _ _ hne heq => hne (congrArg Prod.snd heq))
                    fun _ _ hne heq => hne (congrArg Prod.snd heq)
      | false =>
          show Post (m >>= fun _ => m') ⟨r, own⟩ _ _
          rw [post_bind]
          refine hr.mono (fun _ ld hne => ?_) fun _ _ hne heq => hne (congrArg Prod.fst heq)
          -- What comes after keeps the part that is no longer the store's own.
          exact (keeps_iff_post.mp hkeeps ld).mono
            (fun _ _ hsame heq => hne (hsame.symm.trans (congrArg Prod.fst heq)))
            fun _ _ hsame heq => hne (hsame.symm.trans (congrArg Prod.fst heq))

theorem detects_into {f : Store W → Store W} (hf : f own = own) :
    Detects own (fun _ => ()) (loadInto f) (pure true) := by
  intro r
  show EStateM.Result.ok () (⟨r, f own⟩ : Loading W) = _
  rw [hf]

/-- Assigning the value that the store has changes nothing. -/
theorem detects_field [DecidableEq α] {read : Proc BinReader α} {assign : α → Store W → Store W}
    (get : Store W → α) (hset : assign (get own) own = own)
    (hget : ∀ a, get (assign a own) = a) :
    Detects own get (loadField read assign) (ownValue read (get own)) := by
  intro r
  unfold ownValue loadField
  cases hread : read r with
  | error e r' =>
      rw [bind_of_error hread]
      exact bind_of_error (from_body_error hread own) _
  | ok a r' =>
      have hrun : (fromBody read >>= fun a => loadInto (assign a)) ⟨r, own⟩ =
          .ok () ⟨r', assign a own⟩ :=
        bind_of_ok (from_body_ok_iff.mpr ⟨r', hread, rfl⟩) _
      rw [bind_of_ok hread]
      by_cases ha : a = get own
      · rw [decide_eq_true ha]
        rw [ha, hset] at hrun
        exact hrun
      · rw [decide_eq_false ha]
        show Post _ _ _ _
        unfold Post
        rw [hrun]
        show get (assign a own) ≠ get own
        rw [hget]
        exact ha

variable {K : Type} [DecidableEq K] {table : Store W → UnorderedMap K α} {key : α → K}
  {read : Proc BinReader α} {enter : α → Store W → Store W}

/-- Entering a value into an empty table changes the table for good. -/
theorem detects_list (message : String) (henter : EntersIn table key enter)
    (hkeys : ∀ a st, KeepsKeys table st (enter a st))
    (hempty : ∀ k, (table own).find k = none) :
    Detects own table
      (loadList read (fun a store => (table store).contains (key a)) message enter)
      (noElement read) := by
  intro r
  unfold noElement loadList
  cases hcount : BinReader.count r with
  | error e r' =>
      rw [bind_of_error hcount]
      exact bind_of_error (from_body_error hcount own) _
  | ok n r' =>
      have hrun := fun (f : Nat → Proc (Loading W) Unit) =>
        bind_of_ok (from_body_ok_iff.mpr ⟨r', hcount, rfl⟩ :
          fromBody BinReader.count ⟨r, own⟩ = .ok n ⟨r', own⟩) f
      rw [bind_of_ok hcount]
      cases n with
      | zero => exact hrun _
      | succ n =>
          cases hread : read r' with
          | error e r'' =>
              simp only [bind_of_error hread]
              rw [hrun]
              exact bind_of_error (bind_of_error (from_body_error hread own) _) _
          | ok a r'' =>
              simp only [bind_of_ok hread]
              show Post _ _ _ _
              unfold Post
              rw [hrun]
              show Post (loadTimes _ (n + 1)) ⟨r', own⟩ _ _
              have hfirst := (@builds_element W α read enter K _ table key message ⟨r', own⟩ ()
                ⟨r'', enter a own⟩).mpr ⟨a, r'', hread, hempty (key a), rfl⟩
              rw [loadTimes]
              unfold Post
              rw [bind_of_ok hfirst]
              show Post (loadTimes _ n) ⟨r'', enter a own⟩ _ _
              refine (keeps_iff_post.mp (keeps_load_times read
                (fun a store => (table store).contains (key a)) message hkeys n) _).mono ?_ ?_
              all_goals
                intro _ ld hstay heq
                exact hstay (key a) (by rw [henter a own (hempty _), if_pos rfl]; simp)
                  (heq ▸ hempty (key a))

/-- A change that does nothing to the store needs no check. -/
theorem Detects.into (h : Detects own part m c) {f : Store W → Store W} (hf : f own = own)
    (hkeeps : ∀ st, SamePart part st (f st)) :
    Detects own part (m >>= fun _ => loadInto f) c := by
  intro r
  have hr := h r
  cases hc : c r with
  | error e r' =>
      rw [hc] at hr
      exact bind_of_error hr _
  | ok same r' =>
      rw [hc] at hr
      cases same with
      | true =>
          refine (bind_of_ok hr _).trans ?_
          show EStateM.Result.ok () (⟨r', f own⟩ : Loading W) = _
          rw [hf]
      | false =>
          show Post (m >>= fun _ => loadInto f) ⟨r, own⟩ _ _
          rw [post_bind]
          exact hr.mono (fun _ ld hne heq => hne ((hkeeps ld.store).symm.trans heq))
            fun _ _ hne => hne

/-- The next field is checked. -/
theorem Detects.field [DecidableEq α] (h : Detects own part m c) {read : Proc BinReader α}
    {assign : α → Store W → Store W} (get : Store W → α)
    (hfield : assign (get own) own = own ∧ (∀ a, get (assign a own) = a) ∧
      ∀ a st, SamePart part st (assign a st)) :
    Detects own (fun st => (part st, get st)) (m >>= fun _ => loadField read assign)
      (andThen c (ownValue read (get own))) :=
  h.bind (detects_field get hfield.1 hfield.2.1) (keeps_load_field _ hfield.2.2)

/-- The next list is checked. -/
theorem Detects.list (h : Detects own part m c) {message : String}
    (henter : EntersIn table key enter) (hkeys : ∀ a st, KeepsKeys table st (enter a st))
    (hempty : ∀ k, (table own).find k = none)
    (hkeeps : ∀ a st, SamePart part st (enter a st)) :
    Detects own (fun st => (part st, table st))
      (m >>= fun _ => loadList read (fun a store => (table store).contains (key a)) message enter)
      (andThen c (noElement read)) :=
  h.bind (detects_list message henter hkeys hempty) (keeps_load_list hkeeps)

end Detects

theorem keys_emplace {K : Type} [DecidableEq K] (m : UnorderedMap K α) (k : K) (v : α) :
    ∀ k', m.find k' ≠ none → (m.emplace k v).find k' ≠ none := by
  intro k' hk'
  rw [find_emplace]
  split
  · simp
  · exact hk'

theorem keys_assign {K : Type} [DecidableEq K] (m : UnorderedMap K α) (k : K) (v : α) :
    ∀ k', m.find k' ≠ none → (m.assign k v).find k' ≠ none := by
  intro k' hk'
  rw [find_assign]
  split
  · simp
  · exact hk'

/-- On a blank store the loader follows the check. -/
theorem detects_tables (period : ClockPeriod) {own : Store W} (hblank : own.Blank) :
    ∃ (β : Type) (part : Store W → β),
      Detects own part (loadTables period) (repeatsStore period own) := by
  obtain ⟨hreset, hnext, hdedup⟩ := hblank
  have hempty : own.families = ∅ ∧ own.checkpoints = ∅ ∧ own.blobs = ∅ ∧ own.replicas = ∅ ∧
      own.placements = ∅ ∧ own.retention = ∅ := by
    rw [← hreset]
    exact ⟨rfl, rfl, rfl, rfl, rfl, rfl⟩
  obtain ⟨hfamilies, hrecords, hblobs, hreplicas, hplacements, hretention⟩ := hempty
  have hadvance : advanceGenerations own = own := by
    have hmap : own.nextCheckpointGeneration.mapValues (fun _ ng => ng.next) =
        own.nextCheckpointGeneration := by
      rw [hnext]
      rfl
    unfold advanceGenerations
    rw [hmap]
  unfold loadTables loadHeader loadGc
  simp only [← bind_assoc]
  refine ⟨_, _, detects_into hreset
    |>.field (fun st => st.coordinatorEpoch.value) (by exact ⟨rfl, fun _ => rfl, fun _ _ => rfl⟩)
    |>.field (fun st => st.options.bootId) (by exact ⟨rfl, fun _ => rfl, fun _ _ => rfl⟩)
    |>.field (fun st => st.nextIdCounter) (by exact ⟨rfl, fun _ => rfl, fun _ _ => rfl⟩)
    |>.field (fun st => st.counters.integrityFailures)
      (by exact ⟨rfl, fun _ => rfl, fun _ _ => rfl⟩)
    |>.field (fun st => st.counters.staleRejections) (by exact ⟨rfl, fun _ => rfl, fun _ _ => rfl⟩)
    |>.field (fun st => st.counters.duplicateRejections)
      (by exact ⟨rfl, fun _ => rfl, fun _ _ => rfl⟩)
    |>.field (fun st => st.counters.workerRestarts) (by exact ⟨rfl, fun _ => rfl, fun _ _ => rfl⟩)
    |>.field (fun st => st.counters.reclaimedBlobs) (by exact ⟨rfl, fun _ => rfl, fun _ _ => rfl⟩)
    |>.field (fun st => st.counters.reclaimedBytes) (by exact ⟨rfl, fun _ => rfl, fun _ _ => rfl⟩)
    |>.field (fun st => st.counters.restoredBytes) (by exact ⟨rfl, fun _ => rfl, fun _ _ => rfl⟩)
    |>.list enters_in_families (fun _ _ => keys_emplace _ _ _) (fun _ => by rw [hfamilies]; rfl)
      (by exact fun _ _ => rfl)
    |>.list enters_in_checkpoints (fun _ _ => keys_emplace _ _ _) (fun _ => by rw [hrecords]; rfl)
      (by exact fun _ _ => rfl)
    |>.into hadvance (by exact fun _ => rfl)
    |>.list enters_in_blobs (fun _ _ => keys_emplace _ _ _) (fun _ => by rw [hblobs]; rfl)
      (by exact fun _ _ => rfl)
    |>.list enters_in_replicas (fun _ _ => keys_emplace _ _ _) (fun _ => by rw [hreplicas]; rfl)
      (by exact fun _ _ => rfl)
    |>.list enters_in_placements (fun _ _ => keys_emplace _ _ _)
      (fun _ => by rw [hplacements]; rfl) (by exact fun _ _ => rfl)
    |>.list enters_in_retention (fun _ _ => keys_emplace _ _ _) (fun _ => by rw [hretention]; rfl)
      (by exact fun _ _ => rfl)
    |>.field (fun st => st.gc.epoch) (by exact ⟨rfl, fun _ => rfl, fun _ _ => rfl⟩)
    |>.field (fun st => st.gc.generation) (by exact ⟨rfl, fun _ => rfl, fun _ _ => rfl⟩)
    |>.field (fun st => st.gc.phase) (by exact ⟨rfl, fun _ => rfl, fun _ _ => rfl⟩)
    |>.field (fun st => st.gc.markedBytes) (by exact ⟨rfl, fun _ => rfl, fun _ _ => rfl⟩)
    |>.field (fun st => st.gc.reclaimedBytes) (by exact ⟨rfl, fun _ => rfl, fun _ _ => rfl⟩)
    |>.list enters_in_dedup (fun _ _ => keys_assign _ _ _) hdedup (by exact fun _ _ => rfl)⟩

/-! ## What a rejected file leaves behind -/

/-- What is read from a body does not touch the counters that are not saved. -/
theorem unsaved_entry_frame : EntryFrame fun st st' : Store W =>
    st'.counters.unsaved = st.counters.unsaved where
  refl _ := rfl
  trans _ _ _ h h' := h'.trans h
  scalars _ _ _ _ _ _ _ h := h
  family _ _ := rfl
  record _ _ := rfl
  blob _ _ := rfl
  replica _ _ := rfl
  placement _ _ := rfl
  retention _ _ := rfl
  dedup _ _ := rfl

section Rejected

variable {period : ClockPeriod} {body : Bytes} {own : Store W} {ld : Loading W} {e : Exn}

/-- A body that is rejected leaves a store that counts nothing. -/
theorem unsaved_after_throw (h : loadBody period ⟨{ view := body }, own⟩ = .error e ld) :
    ld.store.counters.unsaved = {} :=
  (unsaved_entry_frame.post_load_body_throws period ⟨{ view := body }, own⟩).of_error h

/-- A body that is rejected leaves a blank store as it was exactly when the check does not fail. -/
theorem blank_after_throw (hblank : own.Blank)
    (h : loadBody period ⟨{ view := body }, own⟩ = .error e ld) :
    ld.store = own ↔ returned (repeatsStore period own { view := body }) ≠ some false := by
  obtain ⟨β, part, hdetects⟩ := detects_tables period hblank
  have hr := hdetects { view := body }
  cases hc : repeatsStore period own { view := body } with
  | error e' r' =>
      rw [hc] at hr
      rw [loadBody, bind_of_error hr] at h
      cases h
      simp [returned]
  | ok same r' =>
      rw [hc] at hr
      cases same with
      | true =>
          refine iff_of_true ?_ (by simp [returned])
          rw [loadBody, bind_of_ok hr] at h
          have hrest : Post (do
              let ld ← get
              if ld.reader.remaining ≠ 0 then
                throwStoreError .malformed "state body trailing garbage"
              else loadInto recomputeCounters) ⟨r', own⟩ (fun _ _ => True)
              fun _ ld => ld.store = own := by
            rw [post_bind, post_get, post_ite]
            exact ⟨fun _ => rfl, fun _ => trivial⟩
          exact hrest.of_error h
      | false =>
          refine iff_of_false (fun heq => ?_) (by simp [returned])
          have hpost : Post (loadBody period) ⟨{ view := body }, own⟩ (fun _ _ => True)
              fun _ ld => part ld.store ≠ part own := by
            rw [loadBody, post_bind]
            refine Post.mono hr (fun _ ld hne => ?_) fun _ _ hne => hne
            rw [post_bind, post_get, post_ite]
            exact ⟨fun _ => hne, fun _ => trivial⟩
          exact hpost.of_error h (congrArg part heq)

end Rejected

/-- What a load that throws leaves behind. A rejected frame changes nothing. A store that counts
anything is unchanged exactly when the frame was rejected. A blank store is unchanged exactly when
the body, if there is one, repeats the values of the store up to where it cannot be read on. -/
theorem rejected_file_iff {env : Env} {s : System W} {e : Exn}
    (hthrows : thrown (loadState env s) = some e) :
    (acceptedBody env s = none → finalState (loadState env s) = s) ∧
    (s.store.counters.unsaved ≠ {} →
      (finalState (loadState env s) = s ↔ acceptedBody env s = none)) ∧
    (s.store.Blank → (finalState (loadState env s) = s ↔
      ∀ body, acceptedBody env s = some body →
        returned (repeatsStore env.period s.store { view := body }) ≠ some false)) := by
  cases hbody : acceptedBody env s with
  | none =>
      obtain ⟨e', hrun⟩ := load_state_refused hbody
      simp [hrun]
  | some body =>
      have hload := load_state_accepted hbody
      cases hrun : loadBody env.period ⟨{ view := body }, s.store⟩ with
      | ok u ld =>
          rw [hload, onBody, hrun] at hthrows
          cases hthrows
      | error e' ld =>
          have hsame : finalState (loadState env s) = s ↔ ld.store = s.store := by
            rw [hload, onBody, hrun]
            refine ⟨congrArg System.store, fun h => ?_⟩
            show { s with store := ld.store } = s
            rw [h]
          refine ⟨by simp, fun hcounts => ?_, fun hblank => ?_⟩
          · refine iff_of_false (fun h => hcounts ?_) (by simp)
            rw [← hsame.mp h]
            exact unsaved_after_throw hrun
          · rw [hsame, blank_after_throw hblank hrun]
            simp

/-- A store with one family, and a file whose frame is sound and whose body is empty. -/
def emptyBodyFile (H : StreamHash) : System MemoryWorld :=
  { sampleRun H [] [.createFamily] with files := assign [] (stateFrame H []) ∅ }

/-- A frame around an empty body. -/
theorem rejected_file_iff_empty_body :
    let env := sampleEnv tagHash
    let s := emptyBodyFile tagHash
    let blank : System MemoryWorld := { s with store := Store.create {} ∅ }
    (finalState (loadState env s) = s ↔ acceptedBody env s = none) ∧
      finalState (loadState env blank) = blank := by
  intro env s blank
  have hthrows : thrown (loadState env s) = some (.error .truncated "binary reader underflow") ∧
      thrown (loadState env blank) = some (.error .truncated "binary reader underflow") ∧
      s.store.counters.familyCount = 1 ∧ acceptedBody env blank = some [] := by
    decide +kernel
  obtain ⟨hs, hblank, hone, hbody⟩ := hthrows
  have hcounts : s.store.counters.unsaved ≠ {} := fun hzero =>
    absurd (hone.symm.trans (congrArg AccountingSnapshot.familyCount hzero)) (by decide)
  refine ⟨(rejected_file_iff hs).2.1 hcounts,
    ((rejected_file_iff hblank).2.2 (blank_create _ _)).mpr fun body haccepted => ?_⟩
  rw [hbody, Option.some.injEq] at haccepted
  subst haccepted
  decide +kernel

/-- Loading this file throws, and the family is gone. -/
theorem rejected_file_clears_store :
    let s := emptyBodyFile sha256Hash
    s.store.families.size = 1 ∧
      thrown (loadState (sampleEnv sha256Hash) s) =
        some (.error .truncated "binary reader underflow") ∧
      (finalState (loadState (sampleEnv sha256Hash) s)).store.families.size = 0 := by
  decide +kernel

end CheckpointStore
