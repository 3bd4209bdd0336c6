import CheckpointStore.Model.Sha256
import CheckpointStore.Storage.Backend
import CheckpointStore.Storage.Keys

/-!
# The synthetic backend

After `synthetic_backend.cpp`: objects in memory, with switches that make the backend unavailable
or report an object as missing or corrupt. A call that throws leaves everything as it was, and
`Effect` says for every other call which maps it updates. From this follow, over all sequences of
calls, which objects carry the mark of `set_corrupt` (`marked_after`) and when the stored bytes fit
the capacity (`fits_after_iff`).

`read` does not look at that mark, and `commit` and `set_capacity` do not compare sizes. So
`verify` and `read` disagree on marked objects with the expected content (`verified_iff_read`), and
the free bytes that `query_capacity` reports wrap around as soon as the objects do not fit
(`capacity_reports_right_iff`). As a backend of the store it is lawful for the objects without
marks (`synthetic_backend_lawful`).
-/

namespace CheckpointStore

open Foundation Foundation.Procedure Foundation.UnorderedMap

/-- `std::numeric_limits<std::size_t>::max()`, the capacity of a backend without a limit. -/
def unlimitedCapacity : UInt64 := 0xFFFFFFFFFFFFFFFF

/-- A backend in memory whose faults are set by hand. -/
structure SyntheticBackend where
  capacityBytes : UInt64 := unlimitedCapacity
  serial : UInt64 := 0
  available : Bool := true
  objects : UnorderedMap BackendKey Bytes := ∅
  staged : UnorderedMap BackendKey BackendKey := ∅
  tempObjects : UnorderedMap BackendKey Bytes := ∅
  corrupt : UnorderedMap BackendKey Bool := ∅
  missing : UnorderedMap BackendKey Bool := ∅

namespace SyntheticBackend

/-! ## The source -/

/-- The report on capacity and use. -/
def queryCapacity (b : SyntheticBackend) : TierMetadata :=
  let used := b.objects.values.foldl (fun total data => total + byteSize data) 0
  { totalBytes := if b.capacityBytes = unlimitedCapacity then 0 else b.capacityBytes
    freeBytes := if b.capacityBytes = unlimitedCapacity then 0 else b.capacityBytes - used
    provenance := .synthetic
    freshness := .current }

/-- Refuse an invalid key. -/
def requireValid (key : BackendKey) : Proc SyntheticBackend Unit :=
  if validateBackendKey key.value then pure ()
  else throwStoreError .invalidArgument "invalid backend key"

/-- Refuse while unavailable. -/
def requireAvailable : Proc SyntheticBackend Unit := do
  let b ← get
  if b.available then pure ()
  else throwStoreError .backendUnavailable "synthetic backend unavailable"

/-- The name under which an object is staged. -/
def tempName (key : BackendKey) (serial : UInt64) : BackendKey :=
  ⟨ascii ['t', 'e', 'm', 'p', '/'] ++ key.value ++ ascii ['.'] ++
    ascii (Nat.toDigits 10 serial.toNat)⟩

/-- Stage the data under a new temporary name. -/
def putTemp (key : BackendKey) (data : Bytes) : Proc SyntheticBackend Unit := do
  requireValid key
  requireAvailable
  modify fun b =>
    let temp := tempName key (b.serial + 1)
    { b with
      serial := b.serial + 1
      tempObjects := b.tempObjects.assign temp data
      staged := b.staged.assign key temp }

/-- The last lines of both `commit`s: the staged object becomes visible, without marks. -/
def publish (temp key : BackendKey) (data : Bytes) (b : SyntheticBackend) : SyntheticBackend :=
  { b with
    objects := b.objects.assign key data
    tempObjects := b.tempObjects.erase temp
    corrupt := b.corrupt.erase key
    missing := b.missing.erase key }

/-- Publish what is staged under the key. -/
def commit (key : BackendKey) : Proc SyntheticBackend Unit := do
  let b ← get
  match b.staged.find key with
  | none => throwStoreError .transaction "commit called for unstaged key"
  | some temp =>
      requireAvailable
      match b.tempObjects.find temp with
      | none => throwStoreError .transaction "staged temp missing"
      | some data => set { b.publish temp key data with staged := b.staged.erase key }

/-- The `commit` of a temporary object under a key of its own. -/
def commitTo (tempKey finalKey : BackendKey) : Proc SyntheticBackend Unit := do
  requireAvailable
  let b ← get
  match b.tempObjects.find tempKey with
  | none => throwStoreError .transaction "staged temp missing"
  | some data => set (b.publish tempKey finalKey data)

/-- The bytes of an object, whether it is marked corrupt or not. -/
def read (key : BackendKey) : Proc SyntheticBackend Bytes := do
  requireValid key
  requireAvailable
  let b ← get
  if b.missing.contains key then throwStoreError .missing "synthetic object missing"
  else
    match b.objects.find key with
    | none => throwStoreError .notFound "synthetic object not found"
    | some data => pure data

/-- Whether a key has an object that is not marked missing. -/
def existsKey (key : BackendKey) : Proc SyntheticBackend Bool := do
  let b ← get
  pure (if b.missing.contains key then false else b.objects.contains key)

/-- Remove the object of a key. -/
def remove (key : BackendKey) : Proc SyntheticBackend Bool := do
  let b ← get
  set { b with objects := b.objects.erase key }
  pure (b.objects.contains key)

/-- The size of an object, 0 without one. -/
def stat (key : BackendKey) (b : SyntheticBackend) : UInt64 :=
  match b.objects.find key with
  | none => 0
  | some data => byteSize data

/-- Compare the hash of an object. -/
def verify (H : StreamHash) (key : BackendKey) (expected : Digest) :
    Proc SyntheticBackend IntegrityState := do
  let b ← get
  if !b.available then pure .unknown
  else if b.missing.contains key then pure .missing
  else
    match b.objects.find key with
    | none => pure .missing
    | some data =>
        if b.corrupt.contains key then pure .corrupt
        else pure (if H.sha256 data = expected then .verified else .corrupt)

/-- Whether the backend is available. -/
def health : Proc SyntheticBackend Bool := do
  let b ← get
  pure b.available

/-- Forget everything. -/
def close : Proc SyntheticBackend Unit :=
  modify fun b =>
    { b with objects := ∅, tempObjects := ∅, staged := ∅, corrupt := ∅, missing := ∅ }

/-- Set the capacity. -/
def setCapacity (capacityBytes : UInt64) : Proc SyntheticBackend Unit :=
  modify fun b => { b with capacityBytes }

/-- Set the availability. -/
def setAvailable (available : Bool) : Proc SyntheticBackend Unit :=
  modify fun b => { b with available }

/-- Mark a key as corrupt. -/
def setCorrupt (key : BackendKey) : Proc SyntheticBackend Unit :=
  modify fun b => { b with corrupt := b.corrupt.assign key true }

/-- Mark a key as missing. -/
def setMissing (key : BackendKey) : Proc SyntheticBackend Unit :=
  modify fun b => { b with missing := b.missing.assign key true }

/-! ## Sequences of calls -/

/-- A call that may change the backend. -/
inductive Call where
  | putTemp (key : BackendKey) (data : Bytes)
  | commit (key : BackendKey)
  | commitTo (tempKey finalKey : BackendKey)
  | remove (key : BackendKey)
  | setCorrupt (key : BackendKey)
  | setMissing (key : BackendKey)
  | setAvailable (available : Bool)
  | setCapacity (capacityBytes : UInt64)
  | close
  deriving DecidableEq

/-- Make a call. -/
def Call.proc : Call → Proc SyntheticBackend Unit
  | .putTemp key data => SyntheticBackend.putTemp key data
  | .commit key => SyntheticBackend.commit key
  | .commitTo tempKey finalKey => SyntheticBackend.commitTo tempKey finalKey
  | .remove key => do let _ ← SyntheticBackend.remove key
  | .setCorrupt key => SyntheticBackend.setCorrupt key
  | .setMissing key => SyntheticBackend.setMissing key
  | .setAvailable available => SyntheticBackend.setAvailable available
  | .setCapacity capacityBytes => SyntheticBackend.setCapacity capacityBytes
  | .close => SyntheticBackend.close

/-- The backend after a call, whether it returned or threw. -/
def after (b : SyntheticBackend) (call : Call) : SyntheticBackend := finalState (call.proc b)

/-- The backend after a sequence of calls. -/
def afterAll (b : SyntheticBackend) (calls : List Call) : SyntheticBackend := calls.foldl after b

/-- The calls of a sequence, each with whether it returned. -/
def trace (b : SyntheticBackend) : List Call → List (Call × Bool)
  | [] => []
  | call :: rest => (call, (returned (call.proc b)).isSome) :: trace (b.after call) rest

/-- The object that a call commits if it is made now, and its key. -/
def committed (b : SyntheticBackend) : Call → Option (BackendKey × Bytes)
  | .commit key =>
      if b.available then
        ((b.staged.find key).bind b.tempObjects.find).map fun data => (key, data)
      else none
  | .commitTo tempKey finalKey =>
      if b.available then (b.tempObjects.find tempKey).map fun data => (finalKey, data) else none
  | _ => none

/-- The objects after a call. -/
def objectsAfter (b : SyntheticBackend) (call : Call) : UnorderedMap BackendKey Bytes :=
  match b.committed call, call with
  | some (key, data), _ => b.objects.assign key data
  | none, .remove key => b.objects.erase key
  | none, .close => ∅
  | none, _ => b.objects

/-- The corrupt marks after a call. -/
def corruptAfter (b : SyntheticBackend) (call : Call) : UnorderedMap BackendKey Bool :=
  match b.committed call, call with
  | some (key, _), _ => b.corrupt.erase key
  | none, .setCorrupt key => b.corrupt.assign key true
  | none, .close => ∅
  | none, _ => b.corrupt

/-- The capacity after a call. -/
def capacityAfter (b : SyntheticBackend) : Call → UInt64
  | .setCapacity capacityBytes => capacityBytes
  | _ => b.capacityBytes

/-- What a call does to the objects, the marks and the capacity. -/
structure Effect (b : SyntheticBackend) (call : Call) (b' : SyntheticBackend) : Prop where
  objects_eq : b'.objects = b.objectsAfter call
  corrupt_eq : b'.corrupt = b.corruptAfter call
  capacity_eq : b'.capacityBytes = b.capacityAfter call

section

variable {b : SyntheticBackend} {call : Call} {key : BackendKey} {data : Bytes}

theorem objects_after_committed (h : b.committed call = some (key, data)) :
    b.objectsAfter call = b.objects.assign key data := by
  simp [objectsAfter, h]

theorem corrupt_after_committed (h : b.committed call = some (key, data)) :
    b.corruptAfter call = b.corrupt.erase key := by
  simp [corruptAfter, h]

end

/-- Unavailability is refused with its error. -/
theorem post_require_available {b : SyntheticBackend} {Q : Unit → SyntheticBackend → Prop}
    {E : Exn → SyntheticBackend → Prop} :
    Post requireAvailable b Q E ↔ (b.available = true → Q () b) ∧
      (b.available = false → E (.error .backendUnavailable "synthetic backend unavailable") b) := by
  simp [requireAvailable, throwStoreError]

/-- What a commit publishes was staged, on an available backend. -/
theorem committed_commit {b : SyntheticBackend} {key : BackendKey} {data : Bytes}
    (h : b.committed (.commit key) = some (key, data)) :
    b.available = true ∧ (b.staged.find key).bind b.tempObjects.find = some data := by
  obtain ⟨hup, hmap⟩ := Option.ite_none_right_eq_some.mp h
  obtain ⟨data', hstaged, heq⟩ := Option.map_eq_some_iff.mp hmap
  cases heq
  exact ⟨hup, hstaged⟩

/-- A commit returns exactly if it has an object to commit, and changes nothing otherwise. -/
theorem post_commit (b : SyntheticBackend) (key : BackendKey) :
    Post (commit key) b
      (fun _ b' => ∃ temp data, b.committed (.commit key) = some (key, data) ∧
        b' = { b.publish temp key data with staged := b.staged.erase key })
      (fun _ b' => b.committed (.commit key) = none ∧ b' = b) := by
  simp only [commit, post_bind, post_get]
  cases hstaged : b.staged.find key with
  | none => exact ⟨by simp [committed, hstaged], rfl⟩
  | some temp =>
      simp only [post_bind, post_require_available]
      refine ⟨fun hup => ?_, fun hdown => ⟨by simp [committed, hdown], trivial⟩⟩
      cases htemp : b.tempObjects.find temp with
      | none => exact ⟨by simp [committed, hstaged, htemp], rfl⟩
      | some data => exact ⟨temp, data, by simp [committed, hup, hstaged, htemp], rfl⟩

/-- Publishing from one key to another. -/
theorem post_commit_to (b : SyntheticBackend) (tempKey finalKey : BackendKey) :
    Post (commitTo tempKey finalKey) b
      (fun _ b' => ∃ data, b.committed (.commitTo tempKey finalKey) = some (finalKey, data) ∧
        b' = b.publish tempKey finalKey data)
      (fun _ b' => b.committed (.commitTo tempKey finalKey) = none ∧ b' = b) := by
  simp only [commitTo, post_bind, post_require_available, post_get]
  refine ⟨fun hup => ?_, fun hdown => ⟨by simp [committed, hdown], trivial⟩⟩
  cases htemp : b.tempObjects.find tempKey with
  | none => exact ⟨by simp [committed, htemp], rfl⟩
  | some data => exact ⟨data, by simp [committed, hup, htemp], rfl⟩

/-- Staging touches neither the objects nor the marks. -/
theorem post_put_temp (b : SyntheticBackend) (key : BackendKey) (data : Bytes) :
    Post (putTemp key data) b
      (fun _ b' => ∃ serial tempObjects staged, b' = { b with serial, tempObjects, staged } ∧
        (staged.find key).bind tempObjects.find = some data)
      (fun _ b' => b' = b) := by
  simp only [putTemp, requireValid, post_bind, post_require_available, post_ite, post_pure,
    post_modify, throwStoreError, post_throw]
  exact ⟨fun _ => ⟨fun _ => ⟨_, _, _, rfl, by simp⟩, fun _ => trivial⟩, fun _ => trivial⟩

/-- Whatever a call is, and whether it returns or throws, this is what it does. -/
theorem effect (b : SyntheticBackend) (call : Call) : Effect b call (b.after call) := by
  cases call with
  | putTemp key data =>
      refine @post_final _ _ _ _ _ (fun _ b' => Effect b (.putTemp key data) b')
        ((post_put_temp b key data).mono (fun _ b' h => ?_) fun _ b' h => ?_)
      · obtain ⟨serial, tempObjects, staged, rfl, -⟩ := h
        exact ⟨rfl, rfl, rfl⟩
      · rw [h]
        exact ⟨rfl, rfl, rfl⟩
  | commit key =>
      refine @post_final _ _ _ _ _ (fun _ b' => Effect b (.commit key) b')
        ((post_commit b key).mono (fun _ b' h => ?_) fun _ b' h => ?_)
      · obtain ⟨temp, data, hcommitted, rfl⟩ := h
        exact ⟨(objects_after_committed hcommitted).symm,
          (corrupt_after_committed hcommitted).symm, rfl⟩
      · obtain ⟨hcommitted, rfl⟩ := h
        exact ⟨by simp [objectsAfter, hcommitted], by simp [corruptAfter, hcommitted], rfl⟩
  | commitTo tempKey finalKey =>
      refine @post_final _ _ _ _ _ (fun _ b' => Effect b (.commitTo tempKey finalKey) b')
        ((post_commit_to b tempKey finalKey).mono (fun _ b' h => ?_) fun _ b' h => ?_)
      · obtain ⟨data, hcommitted, rfl⟩ := h
        exact ⟨(objects_after_committed hcommitted).symm,
          (corrupt_after_committed hcommitted).symm, rfl⟩
      · obtain ⟨hcommitted, rfl⟩ := h
        exact ⟨by simp [objectsAfter, hcommitted], by simp [corruptAfter, hcommitted], rfl⟩
  | remove key => exact ⟨rfl, rfl, rfl⟩
  | setCorrupt key => exact ⟨rfl, rfl, rfl⟩
  | setMissing key => exact ⟨rfl, rfl, rfl⟩
  | setAvailable available => exact ⟨rfl, rfl, rfl⟩
  | setCapacity capacityBytes => exact ⟨rfl, rfl, rfl⟩
  | close => exact ⟨rfl, rfl, rfl⟩

theorem after_all_cons (b : SyntheticBackend) (call : Call) (rest : List Call) :
    b.afterAll (call :: rest) = (b.after call).afterAll rest := rfl

/-! ## Verified and read -/

/-- How a call changes the mark of `set_corrupt` on a key. -/
def marks (key : BackendKey) (marked : Bool) : Call × Bool → Bool
  | (.setCorrupt key', _) => marked || key' = key
  | (.commit key', true) => marked && key' ≠ key
  | (.commitTo _ key', true) => marked && key' ≠ key
  | (.close, _) => false
  | _ => marked

/-- Whether `set_corrupt` is the last of the calls `set_corrupt(key)`, a commit to the key that
returned, and `close()`. -/
def markedLast (key : BackendKey) (events : List (Call × Bool)) : Bool :=
  events.foldl (marks key) false

/-- The mark after one call. -/
theorem marked_after_call (b : SyntheticBackend) (call : Call) (key : BackendKey) :
    (b.after call).corrupt.contains key =
      marks key (b.corrupt.contains key) (call, (returned (call.proc b)).isSome) := by
  rw [(effect b call).corrupt_eq]
  cases call with
  | commit key' =>
      show _ = marks key _ (.commit key', (returned (commit key' b)).isSome)
      cases hrun : commit key' b with
      | ok _ b' =>
          obtain ⟨temp, data, hcommitted, _⟩ := (post_commit b key').of_ok hrun
          simp [corrupt_after_committed hcommitted, contains_erase, marks, returned]
      | error e b' =>
          obtain ⟨hcommitted, _⟩ := (post_commit b key').of_error hrun
          simp [corruptAfter, hcommitted, marks, returned]
  | commitTo tempKey finalKey =>
      show _ = marks key _
        (.commitTo tempKey finalKey, (returned (commitTo tempKey finalKey b)).isSome)
      cases hrun : commitTo tempKey finalKey b with
      | ok _ b' =>
          obtain ⟨data, hcommitted, _⟩ := (post_commit_to b tempKey finalKey).of_ok hrun
          simp [corrupt_after_committed hcommitted, contains_erase, marks, returned]
      | error e b' =>
          obtain ⟨hcommitted, _⟩ := (post_commit_to b tempKey finalKey).of_error hrun
          simp [corruptAfter, hcommitted, marks, returned]
  | setCorrupt key' => exact contains_assign _ _ _ _
  | putTemp key' data => rfl
  | remove key' => rfl
  | setMissing key' => rfl
  | setAvailable available => rfl
  | setCapacity capacityBytes => rfl
  | close => rfl

/-- A key is marked as its history of calls says. -/
theorem marked_after (b : SyntheticBackend) (calls : List Call) (key : BackendKey) :
    (b.afterAll calls).corrupt.contains key =
      (b.trace calls).foldl (marks key) (b.corrupt.contains key) := by
  induction calls generalizing b with
  | nil => rfl
  | cons call rest ih => rw [after_all_cons, ih, marked_after_call, trace, List.foldl_cons]

/-- A read returns what is stored and not missing, and fails in no other way than for an invalid key
or an unavailable backend. -/
theorem post_read (b : SyntheticBackend) (key : BackendKey) :
    Post (read key) b
      (fun data b' => b' = b ∧ b.missing.contains key = false ∧ b.objects.find key = some data)
      (fun _ b' => b' = b ∧ (validateBackendKey key.value = true → b.available = true →
        b.missing.contains key = true ∨ b.objects.find key = none)) := by
  simp only [read, requireValid, post_bind, post_pure, post_require_available, post_get, post_ite]
  refine ⟨fun _ => ⟨fun _ => ⟨fun hmissing => ⟨rfl, fun _ _ => .inl hmissing⟩, fun hthere => ?_⟩,
    fun hdown => ⟨trivial, fun _ hup => ?_⟩⟩,
    fun hinvalid => ⟨rfl, fun hvalid => (hinvalid hvalid).elim⟩⟩
  · cases hfind : b.objects.find key with
    | none => exact ⟨rfl, fun _ _ => .inr rfl⟩
    | some data => exact ⟨rfl, by simpa using hthere, rfl⟩
  · rw [hup] at hdown
    cases hdown

/-- What a read of a valid key returns while the backend is available. -/
theorem read_returns_iff {b : SyntheticBackend} {key : BackendKey} {data : Bytes}
    (hvalid : validateBackendKey key.value = true) (hup : b.available = true) :
    returned (read key b) = some data ↔
      b.missing.contains key = false ∧ b.objects.find key = some data := by
  cases hrun : read key b with
  | ok data' b' =>
      obtain ⟨_, hthere, hfind⟩ := (post_read b key).of_ok hrun
      simp [returned, hthere, hfind]
  | error e b' =>
      rcases ((post_read b key).of_error hrun).2 hvalid hup with hmissing | hfind
      · simp [returned, hmissing]
      · simp [returned, hfind]

/-- `verify` changes nothing, and only an available backend verifies, namely what is there, has the
digest and is not marked. -/
theorem post_verify (H : StreamHash) (b : SyntheticBackend) (key : BackendKey) (d : Digest) :
    Post (verify H key d) b
      (fun answer b' => b' = b ∧ (answer = .verified ↔
        b.available = true ∧ b.missing.contains key = false ∧
          (∃ data, b.objects.find key = some data ∧ H.sha256 data = d) ∧
          b.corrupt.contains key = false))
      (fun _ _ => False) := by
  simp only [verify, post_bind, post_get, post_ite, post_pure]
  refine ⟨fun hdown => ⟨trivial, by simp_all⟩,
    fun _ => ⟨fun hmissing => ⟨trivial, by simp [hmissing]⟩, fun hthere => ?_⟩⟩
  cases hfind : b.objects.find key with
  | none => exact ⟨rfl, by simp⟩
  | some data =>
      simp only [post_ite, post_pure]
      refine ⟨fun hmarked => ⟨trivial, by simp [hmarked]⟩, fun hunmarked => ⟨trivial, ?_⟩⟩
      by_cases hdigest : H.sha256 data = d <;> simp_all

/-- What `verified` means while the backend is available. -/
theorem verify_verified_iff {H : StreamHash} {b : SyntheticBackend} {key : BackendKey} {d : Digest}
    (hup : b.available = true) :
    returned (verify H key d b) = some .verified ↔
      b.missing.contains key = false ∧
        (∃ data, b.objects.find key = some data ∧ H.sha256 data = d) ∧
        b.corrupt.contains key = false := by
  cases hrun : verify H key d b with
  | ok answer b' =>
      have hanswer := ((post_verify H b key d).of_ok hrun).2
      simp only [hup, true_and] at hanswer
      rw [← hanswer]
      simp [returned]
  | error e b' => exact ((post_verify H b key d).of_error hrun).elim

/-- Over every sequence of calls, an available backend verifies exactly the objects that it reads
with the expected digest and that are not marked by `set_corrupt`. So `verify` and `read` agree on a
digest unless the key is marked and what is read has that digest. -/
theorem verified_iff_read (H : StreamHash) (capacityBytes : UInt64) (calls : List Call)
    (key : BackendKey) (d : Digest) (hvalid : validateBackendKey key.value = true)
    (hup : (afterAll { capacityBytes } calls).available = true) :
    returned (verify H key d (afterAll { capacityBytes } calls)) = some .verified ↔
      (∃ data, returned (read key (afterAll { capacityBytes } calls)) = some data ∧
        H.sha256 data = d) ∧
      markedLast key (trace { capacityBytes } calls) = false := by
  rw [verify_verified_iff hup, marked_after]
  simp only [read_returns_iff hvalid hup]
  constructor
  · rintro ⟨hthere, ⟨data, hfind, hdigest⟩, hunmarked⟩
    exact ⟨⟨data, ⟨hthere, hfind⟩, hdigest⟩, hunmarked⟩
  · rintro ⟨⟨data, ⟨hthere, hfind⟩, hdigest⟩, hunmarked⟩
    exact ⟨hthere, ⟨data, hfind, hdigest⟩, hunmarked⟩

/-- A second commit clears the mark. -/
theorem verified_iff_read_of_recommitted :
    let key : BackendKey := ⟨ascii ['a']⟩
    let calls : List Call :=
      [.putTemp key [7], .commit key, .setCorrupt key, .putTemp key [8], .commit key]
    let b := afterAll {} calls
    returned (verify sha256Hash key (sha256Hash.sha256 [8]) b) = some .verified ↔
      (∃ data, returned (read key b) = some data ∧
        sha256Hash.sha256 data = sha256Hash.sha256 [8]) ∧
      markedLast key (trace {} calls) = false :=
  verified_iff_read sha256Hash unlimitedCapacity _ _ _ (by decide +kernel) (by decide +kernel)

/-- An object is staged, committed and marked. It is reported corrupt, and a read still returns its
content. -/
theorem marked_object_is_read :
    let key : BackendKey := ⟨ascii ['a']⟩
    let b := afterAll {} [.putTemp key [7], .commit key, .setCorrupt key]
    let d := sha256Hash.sha256 [7]
    validateBackendKey key.value = true ∧ b.available = true ∧
      returned (verify sha256Hash key d b) = some .corrupt ∧
      returned (read key b) = some [7] := by
  decide +kernel

/-! ## The capacity report -/

/-- The total size of the committed objects. -/
def usedBytes (b : SyntheticBackend) : Nat := b.objects.sumBy fun _ data => data.length

/-- The report of `query_capacity` adds up. -/
def ReportRight (b : SyntheticBackend) : Prop :=
  b.queryCapacity.freeBytes ≤ b.queryCapacity.totalBytes ∧
    b.queryCapacity.freeBytes.toNat + b.usedBytes = b.queryCapacity.totalBytes.toNat

/-- The committed objects fit the capacity. -/
def Fits (b : SyntheticBackend) : Prop := b.usedBytes ≤ b.capacityBytes.toNat

/-- The size of the object under a key, 0 if there is none. -/
def storedLength (b : SyntheticBackend) (key : BackendKey) : Nat :=
  ((b.objects.find key).map fun data => data.length).getD 0

/-- What a call would commit fits in the place of what it overwrites, and a new capacity is not less
than what is stored. -/
def roomFor (b : SyntheticBackend) (call : Call) : Bool :=
  match b.committed call, call with
  | some (key, data), _ => b.usedBytes + data.length ≤ b.capacityBytes.toNat + b.storedLength key
  | none, .setCapacity capacityBytes => b.usedBytes ≤ capacityBytes.toNat
  | none, _ => true

/-- With a limit, the report is right exactly if the objects fit. -/
theorem report_right_iff_fits {b : SyntheticBackend}
    (hlimit : b.capacityBytes ≠ unlimitedCapacity) : b.ReportRight ↔ b.Fits := by
  unfold ReportRight queryCapacity
  dsimp only
  rw [if_neg hlimit, if_neg hlimit, foldl_values_eq_sum_by]
  constructor
  · rintro ⟨_, hsum⟩
    exact Nat.le_trans (Nat.le_add_left _ _) (Nat.le_of_eq hsum)
  · intro hfits
    have hlt := Nat.lt_of_le_of_lt hfits b.capacityBytes.toNat_lt
    -- No single size wraps around, and neither does the sum.
    have hused : b.objects.sumBy (fun _ data => (byteSize data).toNat) = b.usedBytes :=
      sum_by_congr fun key data hfind => byte_size_to_nat
        (Nat.lt_of_le_of_lt (le_sum_by hfind fun _ data => data.length) hlt)
    have hsize : (UInt64.ofNat b.usedBytes).toNat = b.usedBytes := by
      rw [UInt64.toNat_ofNat', Nat.mod_eq_of_lt hlt]
    have hle : UInt64.ofNat b.usedBytes ≤ b.capacityBytes := by
      rw [UInt64.le_iff_toNat_le, hsize]
      exact hfits
    have hfree := UInt64.toNat_sub_of_le _ _ hle
    rw [hused, UInt64.le_iff_toNat_le, hfree, hsize]
    exact ⟨Nat.sub_le _ _, Nat.sub_add_cancel hfits⟩

/-- One call keeps the objects within the capacity exactly if there is room for it. -/
theorem fits_after_iff {b : SyntheticBackend} (hfits : b.Fits) (call : Call) :
    (b.after call).Fits ↔ b.roomFor call = true := by
  unfold Fits usedBytes at *
  rw [(effect b call).objects_eq, (effect b call).capacity_eq]
  cases hcommitted : b.committed call with
  | some placed =>
      obtain ⟨key, data⟩ := placed
      have hcapacity : b.capacityAfter call = b.capacityBytes := by
        cases call <;> first | rfl | cases hcommitted
      have hroom : b.roomFor call = true ↔
          b.usedBytes + data.length ≤ b.capacityBytes.toNat + b.storedLength key := by
        simp [roomFor, hcommitted]
      have hsum := sum_by_assign b.objects key data fun _ data => data.length
      rw [objects_after_committed hcommitted, hcapacity, hroom, usedBytes, storedLength]
      omega
  | none =>
      cases call with
      | setCapacity n => exact decide_eq_true_iff.symm
      | remove key =>
          have hsum := sum_by_erase b.objects key fun _ data => data.length
          refine iff_of_true ?_ rfl
          show (b.objects.erase key).sumBy _ ≤ b.capacityBytes.toNat
          omega
      | close => exact iff_of_true (Nat.zero_le _) rfl
      | _ =>
          refine iff_of_true ?_ (by simp [roomFor, hcommitted])
          simpa [objectsAfter, hcommitted, capacityAfter] using hfits

/-- A call from the list makes one more prefix. -/
theorem after_all_take_succ (b : SyntheticBackend) {calls : List Call} {n : Nat} {call : Call}
    (h : calls[n]? = some call) :
    b.afterAll (calls.take (n + 1)) = (b.afterAll (calls.take n)).after call := by
  rw [List.take_add_one, h, afterAll, List.foldl_append]
  rfl

/-- A limited backend stays limited, unless it is given the unlimited capacity. -/
theorem limited_after_all {b : SyntheticBackend} {calls : List Call}
    (hlimit : b.capacityBytes ≠ unlimitedCapacity)
    (hcalls : ∀ n, .setCapacity n ∈ calls → n ≠ unlimitedCapacity) :
    (b.afterAll calls).capacityBytes ≠ unlimitedCapacity := by
  induction calls generalizing b with
  | nil => exact hlimit
  | cons call rest ih =>
      rw [after_all_cons]
      refine ih ?_ fun n hin => hcalls n (List.mem_cons_of_mem _ hin)
      rw [(effect b call).capacity_eq]
      cases call with
      | setCapacity n => exact hcalls n (List.mem_cons_self)
      | _ => exact hlimit

/-- The reports of a limited backend add up after every call of a sequence exactly if no call
commits more than there is room for or lowers the capacity below what is stored. -/
theorem capacity_reports_right_iff (capacityBytes : UInt64) (calls : List Call)
    (hlimit : capacityBytes ≠ unlimitedCapacity)
    (hcalls : ∀ n, .setCapacity n ∈ calls → n ≠ unlimitedCapacity) :
    (∀ n, (afterAll { capacityBytes } (calls.take n)).ReportRight) ↔
      ∀ n call, calls[n]? = some call →
        (afterAll { capacityBytes } (calls.take n)).roomFor call = true := by
  have hreport : ∀ n, (afterAll { capacityBytes } (calls.take n)).ReportRight ↔
      (afterAll { capacityBytes } (calls.take n)).Fits := fun n =>
    report_right_iff_fits
      (limited_after_all hlimit fun m hin => hcalls m (List.mem_of_mem_take hin))
  simp only [hreport]
  constructor
  · intro hfits n call hget
    rw [← fits_after_iff (hfits n), ← after_all_take_succ _ hget]
    exact hfits (n + 1)
  · intro hroom n
    induction n with
    | zero => exact Nat.zero_le _
    | succ n ih =>
        cases hget : calls[n]? with
        | some call =>
            rw [after_all_take_succ _ hget, fits_after_iff ih]
            exact hroom n call hget
        | none =>
            rw [List.take_add_one, hget, Option.toList_none, List.append_nil]
            exact ih

/-- A capacity of three is lowered to the two bytes in use. -/
theorem capacity_reports_right_at_three :
    let key : BackendKey := ⟨ascii ['a']⟩
    let calls : List Call := [.putTemp key [7, 7], .commit key, .setCapacity 2]
    (∀ n, (afterAll { capacityBytes := 3 } (calls.take n)).ReportRight) ∧
      (afterAll { capacityBytes := 3 } calls).usedBytes = 2 := by
  intro key calls
  refine ⟨(capacity_reports_right_iff 3 calls (by decide) (by simp [calls, unlimitedCapacity])).mpr
    fun n call hget => ?_, by decide +kernel⟩
  match n, hget with
  | 0, hget => cases hget; decide +kernel
  | 1, hget => cases hget; decide +kernel
  | 2, hget => cases hget; decide +kernel

/-- Two bytes are committed to a backend that holds one. All but one of `2 ^ 64` bytes are reported
as free. -/
theorem free_bytes_wrap_around :
    let key : BackendKey := ⟨ascii ['a']⟩
    let b := afterAll { capacityBytes := 1 } [.putTemp key [7, 7], .commit key]
    b.usedBytes = 2 ∧ b.queryCapacity.totalBytes = 1 ∧
      b.queryCapacity.freeBytes = 0xFFFFFFFFFFFFFFFF := by
  decide +kernel

/-! ## As a backend of the store -/

/-- The objects that the backend vouches for: it is available and they are not marked. -/
def view : ObjectView SyntheticBackend where
  objects b key :=
    if b.available ∧ b.missing.contains key = false ∧ b.corrupt.contains key = false then
      b.objects.find key
    else none
  staged b key := (b.staged.find key).bind b.tempObjects.find

/-- A commit makes the staged object visible and takes the marks of its key away. -/
theorem objects_publish {b : SyntheticBackend} (hup : b.available = true) (temp key : BackendKey)
    (data : Bytes) :
    view.objects (b.publish temp key data) =
      Function.update (view.objects b) key (some data) := by
  funext key'
  by_cases hkey : key' = key
  · subst hkey
    simp [view, publish, hup, contains_erase]
  · simp [view, publish, contains_erase, hkey, Ne.symm hkey]

/-- Removing an object leaves the others. -/
theorem objects_erase (b : SyntheticBackend) (key : BackendKey) :
    view.objects { b with objects := b.objects.erase key } =
      if b.objects.contains key then Function.update (view.objects b) key none
      else view.objects b := by
  funext key'
  by_cases hkey : key' = key
  · subst hkey
    cases hfind : b.objects.find key' <;> simp [view, contains, hfind]
  · split <;> simp [view, find_erase, hkey]

end SyntheticBackend

/-- The synthetic backend with the interface that the store calls. -/
def syntheticBackend (H : StreamHash) : IBackend SyntheticBackend where
  putTemp := SyntheticBackend.putTemp
  commit := SyntheticBackend.commit
  read := SyntheticBackend.read
  existsKey := SyntheticBackend.existsKey
  remove := SyntheticBackend.remove
  verify := SyntheticBackend.verify H
  health := SyntheticBackend.health

open SyntheticBackend in
/-- It meets the contract of a backend for the objects it vouches for. -/
theorem synthetic_backend_lawful (H : StreamHash) :
    (syntheticBackend H).Lawful H SyntheticBackend.view where
  put_temp key data b := (post_put_temp b key data).mono
    (fun _ b' h => by obtain ⟨_, _, _, rfl, hstaged⟩ := h; exact ⟨rfl, hstaged⟩)
    fun _ b' h => by rw [h]; rfl
  commit key b := (post_commit b key).mono
    (fun _ b' h => by
      obtain ⟨temp, data, hcommitted, rfl⟩ := h
      obtain ⟨hup, hstaged⟩ := committed_commit hcommitted
      exact ⟨data, hstaged, objects_publish hup temp key data⟩)
    fun _ b' h => by rw [h.2]; rfl
  read key := keeps_iff_post.mpr fun b => (post_read b key).mono
    (fun _ b' h => by rw [h.1]; rfl) fun _ b' h => by rw [h.1]; rfl
  exists_key _ _ := rfl
  remove key b := objects_erase b key
  verify key d b := (post_verify H b key d).mono
    (fun answer b' h => by
      obtain ⟨rfl, hanswer⟩ := h
      refine ⟨rfl, hanswer.trans ?_⟩
      simp only [SyntheticBackend.view]
      split <;> simp_all)
    fun _ _ h => h.elim
  health _ := rfl

end CheckpointStore
