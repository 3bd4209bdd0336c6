import CheckpointStore.Foundation.UnorderedMap
import CheckpointStore.Model.Digest
import CheckpointStore.Model.Enums
import Mathlib.Logic.Function.Basic

/-!
# Storage backends

`IBackend W` is the interface of `backend.hpp` as far as the store calls it: a record of
procedures over a world `W`. The world is whatever the backends of one store share, so a
backend may answer differently on every call, and two backends may alias.

The contract `Lawful` restricts a backend through the objects it shows (`ObjectView`). What is
committed is what was staged, `verify` is exact, and a failing call changes no committed object.
`memory_backend_lawful` gives a backend with injected faults that meets the contract.
-/

namespace CheckpointStore

open Foundation Foundation.Procedure

/-- The answer of `query_capacity`, as far as `capacity_report` reads it. -/
structure TierMetadata where
  totalBytes : UInt64 := 0
  freeBytes : UInt64 := 0
  provenance : Provenance := .unknown
  freshness : Freshness := .unknown

/-- The methods of `IBackend` that the store calls. -/
structure IBackend (W : Type) where
  putTemp : BackendKey → Bytes → Proc W Unit
  commit : BackendKey → Proc W Unit
  read : BackendKey → Proc W Bytes
  existsKey : BackendKey → Proc W Bool
  remove : BackendKey → Proc W Bool
  verify : BackendKey → Digest → Proc W IntegrityState
  health : Proc W Bool

/-- What a world stores: the committed objects, and the objects staged for a commit. -/
structure ObjectView (W : Type) where
  objects : W → BackendKey → Option Bytes
  staged : W → BackendKey → Option Bytes

namespace ObjectView

variable {W : Type} (view : ObjectView W)

/-- No committed object differs. -/
def Same (w w' : W) : Prop := view.objects w' = view.objects w

end ObjectView

/-- The contract of a backend that nobody else alters. A call may fail at any time; then the
committed objects are what they were. -/
structure IBackend.Lawful {W : Type} (H : StreamHash) (b : IBackend W) (view : ObjectView W) :
    Prop where
  put_temp : ∀ key data w, Post (b.putTemp key data) w
    (fun _ w' => view.Same w w' ∧ view.staged w' key = some data) (fun _ w' => view.Same w w')
  commit : ∀ key w, Post (b.commit key) w
    (fun _ w' => ∃ data, view.staged w key = some data ∧
      view.objects w' = Function.update (view.objects w) key (some data))
    (fun _ w' => view.Same w w')
  /-- What a read returns is left open. -/
  read : ∀ key, Keeps view.Same (b.read key)
  exists_key : ∀ key, Keeps view.Same (b.existsKey key)
  /-- `true` means that the object is gone; a throw means that it is still there. -/
  remove : ∀ key w, Post (b.remove key) w
    (fun removed w' => view.objects w' =
      if removed then Function.update (view.objects w) key none else view.objects w)
    (fun _ w' => view.Same w w' ∧ view.objects w key ≠ none)
  verify : ∀ key d w, Post (b.verify key d) w
    (fun answer w' => view.Same w w' ∧
      (answer = .verified ↔ ∃ data, view.objects w key = some data ∧ H.sha256 data = d))
    (fun _ w' => view.Same w w')
  health : Keeps view.Same b.health

/-- Removing an object that is there succeeds. -/
def IBackend.Removes {W : Type} (b : IBackend W) (view : ObjectView W) : Prop :=
  ∀ key w, view.objects w key ≠ none → ∃ w', b.remove key w = .ok true w'

/-- The worlds in which a backend answers: it reports health and returns what it stores, and
goes on doing so. -/
structure IBackend.Serves {W : Type} (b : IBackend W) (view : ObjectView W)
    (healthy : W → Prop) : Prop where
  health : ∀ w, healthy w → Post b.health w
    (fun up w' => up = true ∧ view.Same w w' ∧ healthy w') (fun _ _ => False)
  read : ∀ key data w, healthy w → view.objects w key = some data → Post (b.read key) w
    (fun data' w' => data' = data ∧ view.Same w w' ∧ healthy w') (fun _ _ => False)

/-- In these worlds a backend also verifies, stages, and commits what is staged. -/
structure IBackend.Writes {W : Type} (b : IBackend W) (view : ObjectView W)
    (healthy : W → Prop) : Prop where
  put_temp : ∀ key data w, healthy w →
    Post (b.putTemp key data) w (fun _ w' => healthy w') (fun _ _ => False)
  commit : ∀ key w, healthy w → view.staged w key ≠ none →
    Post (b.commit key) w (fun _ w' => healthy w') (fun _ _ => False)
  verify : ∀ key d w, healthy w →
    Post (b.verify key d) w (fun _ w' => healthy w') (fun _ _ => False)

/-- The verdict on the content of an object. -/
def StreamHash.judge (H : StreamHash) (d : Digest) : Option Bytes → IntegrityState
  | none => .missing
  | some x => if H.sha256 x = d then .verified else .corrupt

/-- In these worlds all questions about objects are answered by what is stored. -/
structure IBackend.Truthful {W : Type} (b : IBackend W) (H : StreamHash) (view : ObjectView W)
    (healthy : W → Prop) : Prop extends b.Serves view healthy where
  read_absent : ∀ key w, healthy w → view.objects w key = none →
    Post (b.read key) w (fun _ _ => False) (fun e _ => e ≠ .foreign)
  exists_key : ∀ key w, healthy w → Post (b.existsKey key) w
    (fun present w' => present = (view.objects w key).isSome ∧ view.Same w w' ∧ healthy w')
    (fun _ _ => False)
  verify : ∀ key d w, healthy w → Post (b.verify key d) w
    (fun answer w' => answer = H.judge d (view.objects w key) ∧ view.Same w w' ∧ healthy w')
    (fun _ _ => False)

namespace ObjectView

variable {W : Type} {view : ObjectView W} {w w' w'' : W}

theorem Same.refl (w : W) : view.Same w w := rfl

theorem Same.trans (h : view.Same w w') (h' : view.Same w' w'') : view.Same w w'' :=
  Eq.trans h' h

instance : Std.Refl view.Same := ⟨Same.refl⟩

instance : IsTrans W view.Same := ⟨fun _ _ _ h h' => h.trans h'⟩

end ObjectView

/-- Verifying an object changes none. -/
theorem IBackend.Lawful.keeps_verify {W : Type} {H : StreamHash} {b : IBackend W}
    {view : ObjectView W} (h : b.Lawful H view) (key : BackendKey) (d : Digest) :
    Keeps view.Same (b.verify key d) :=
  keeps_iff_post.mpr fun w => (h.verify key d w).mono (fun _ _ hw => hw.1) fun _ _ hw => hw

/-! ## An in-memory backend with injected faults -/

/-- The world of one in-memory backend. Each fallible call takes the next entry of `faults`
and throws when it is `true`. -/
structure MemoryWorld where
  objects : UnorderedMap BackendKey Bytes := ∅
  staged : UnorderedMap BackendKey Bytes := ∅
  faults : List Bool := []

namespace MemoryWorld

/-- The committed and the staged objects of the memory. -/
def view : ObjectView MemoryWorld where
  objects w key := w.objects.find key
  staged w key := w.staged.find key

/-- Throw if the script says so. -/
def fault : Proc MemoryWorld Unit := fun w =>
  match w.faults with
  | [] => .ok () w
  | true :: rest => .error (.error .io "injected fault") { w with faults := rest }
  | false :: rest => .ok () { w with faults := rest }

/-- A fault changes nothing but the script. -/
theorem post_fault (w : MemoryWorld) :
    Post fault w (fun _ w' => w'.objects = w.objects ∧ w'.staged = w.staged)
      (fun _ w' => w'.objects = w.objects ∧ w'.staged = w.staged) := by
  unfold Post fault
  rcases w with ⟨objects, staged, _ | ⟨_ | _, rest⟩⟩ <;> exact ⟨rfl, rfl⟩

end MemoryWorld

/-- The backend over a `MemoryWorld`, after the object handling of `SyntheticBackend`. -/
def memoryBackend (H : StreamHash) : IBackend MemoryWorld where
  putTemp key data := do
    MemoryWorld.fault
    modify fun w => { w with staged := w.staged.assign key data }
  commit key := do
    MemoryWorld.fault
    let w ← get
    match w.staged.find key with
    | none => throwStoreError .transaction "commit called for unstaged key"
    | some data =>
        set { w with objects := w.objects.assign key data, staged := w.staged.erase key }
  read key := do
    MemoryWorld.fault
    let w ← get
    match w.objects.find key with
    | none => throwStoreError .notFound "synthetic object not found"
    | some data => pure data
  existsKey key := do
    let w ← get
    pure (w.objects.contains key)
  remove key := do
    let w ← get
    set { w with objects := w.objects.erase key }
    pure (w.objects.contains key)
  verify key d := do
    let w ← get
    match w.objects.find key with
    | none => pure .missing
    | some data => pure (if H.sha256 data = d then .verified else .corrupt)
  health := pure true

section Memory

variable {H : StreamHash}

/-- Staging in memory commits nothing. -/
private theorem memory_put_temp (key : BackendKey) (data : Bytes) (w : MemoryWorld) :
    Post ((memoryBackend H).putTemp key data) w
      (fun _ w' => MemoryWorld.view.Same w w' ∧ MemoryWorld.view.staged w' key = some data)
      (fun _ w' => MemoryWorld.view.Same w w') := by
  simp only [memoryBackend, post_bind, post_modify]
  refine (MemoryWorld.post_fault w).mono (fun _ w' hw => ?_) (fun _ w' hw => ?_)
  · refine ⟨?_, by simp [MemoryWorld.view]⟩
    funext key'
    simp [MemoryWorld.view, hw.1]
  · funext key'
    simp [MemoryWorld.view, hw.1]

/-- Committing in memory moves the staged object. -/
private theorem memory_commit (key : BackendKey) (w : MemoryWorld) :
    Post ((memoryBackend H).commit key) w
      (fun _ w' => ∃ data, MemoryWorld.view.staged w key = some data ∧
        MemoryWorld.view.objects w' =
          Function.update (MemoryWorld.view.objects w) key (some data))
      (fun _ w' => MemoryWorld.view.Same w w') := by
  simp only [memoryBackend, post_bind, post_get]
  refine (MemoryWorld.post_fault w).mono (fun _ w' hw => ?_) (fun _ w' hw => ?_)
  · cases hstaged : w'.staged.find key with
    | none =>
        simp only [throwStoreError, post_throw]
        funext key'
        simp [MemoryWorld.view, hw.1]
    | some data =>
        simp only [post_set]
        refine ⟨data, by rw [← hstaged, hw.2]; rfl, ?_⟩
        funext key'
        simp [MemoryWorld.view, hw.1, Function.update_apply]
  · funext key'
    simp [MemoryWorld.view, hw.1]

/-- Reading from memory changes nothing. -/
private theorem memory_read (key : BackendKey) :
    Keeps MemoryWorld.view.Same ((memoryBackend H).read key) := by
  refine keeps_iff_post.mpr fun w => ?_
  simp only [memoryBackend, post_bind, post_get]
  refine (MemoryWorld.post_fault w).mono (fun _ w' hw => ?_) (fun _ w' hw => ?_)
  · have hsame : MemoryWorld.view.Same w w' := by
      funext key'
      simp [MemoryWorld.view, hw.1]
    cases w'.objects.find key with
    | none => exact hsame
    | some data => exact hsame
  · funext key'
    simp [MemoryWorld.view, hw.1]

/-- Removing from memory answers whether there was an object. -/
private theorem memory_remove (key : BackendKey) (w : MemoryWorld) :
    Post ((memoryBackend H).remove key) w
      (fun removed w' => MemoryWorld.view.objects w' =
        if removed then Function.update (MemoryWorld.view.objects w) key none
        else MemoryWorld.view.objects w)
      (fun _ w' => MemoryWorld.view.Same w w' ∧ MemoryWorld.view.objects w key ≠ none) := by
  simp only [memoryBackend, post_bind, post_get, post_set, post_pure]
  cases hobject : w.objects.find key with
  | none =>
      rw [if_neg (by simp [UnorderedMap.contains, hobject])]
      funext key'
      by_cases hkey : key' = key
      · subst hkey; simp [MemoryWorld.view, hobject]
      · simp [MemoryWorld.view, hkey]
  | some data =>
      rw [if_pos (by simp [UnorderedMap.contains, hobject])]
      funext key'
      simp [MemoryWorld.view, Function.update_apply]

/-- Verifying in memory hashes the object. -/
private theorem memory_verify (key : BackendKey) (d : Digest) (w : MemoryWorld) :
    Post ((memoryBackend H).verify key d) w
      (fun answer w' => MemoryWorld.view.Same w w' ∧ (answer = .verified ↔
        ∃ data, MemoryWorld.view.objects w key = some data ∧ H.sha256 data = d))
      (fun _ w' => MemoryWorld.view.Same w w') := by
  simp only [memoryBackend, post_bind, post_get]
  cases hobject : w.objects.find key with
  | none => exact ⟨rfl, by simp [MemoryWorld.view, hobject]⟩
  | some data =>
      refine ⟨rfl, ?_⟩
      by_cases hdigest : H.sha256 data = d
      · simp [MemoryWorld.view, hobject, hdigest]
      · simp [MemoryWorld.view, hobject, hdigest]

/-- The in-memory backend meets the contract, whatever its faults. -/
theorem memory_backend_lawful (H : StreamHash) :
    (memoryBackend H).Lawful H MemoryWorld.view where
  put_temp := memory_put_temp
  commit := memory_commit
  read := memory_read
  exists_key _ _ := rfl
  remove := memory_remove
  verify := memory_verify
  health _ := rfl

/-- Memory removes whatever it holds. -/
theorem memory_backend_removes (H : StreamHash) :
    (memoryBackend H).Removes MemoryWorld.view := by
  intro key w hpresent
  have hcontains : w.objects.contains key = true := Option.isSome_iff_ne_none.mpr hpresent
  refine ⟨{ w with objects := w.objects.erase key }, ?_⟩
  show EStateM.Result.ok (w.objects.contains key) _ = _
  rw [hcontains]

/-- With no fault left in its script the in-memory backend answers every read. -/
theorem memory_backend_serves (H : StreamHash) :
    (memoryBackend H).Serves MemoryWorld.view (fun w => w.faults = []) where
  health _ hw := ⟨rfl, rfl, hw⟩
  read key data w hw hobject := by
    have hfault : MemoryWorld.fault w = .ok () w := by simp [MemoryWorld.fault, hw]
    have hfind : w.objects.find key = some data := hobject
    simp only [memoryBackend, post_bind, post_get]
    unfold Post
    simp only [hfault, hfind]
    exact ⟨rfl, rfl, hw⟩

/-- Memory without faults writes what it is asked to. -/
theorem memory_backend_writes (H : StreamHash) :
    (memoryBackend H).Writes MemoryWorld.view (fun w => w.faults = []) where
  put_temp key data w hw := by
    have hfault : MemoryWorld.fault w = .ok () w := by simp [MemoryWorld.fault, hw]
    simp only [memoryBackend, post_bind, post_modify]
    unfold Post
    rw [hfault]
    exact hw
  commit key w hw hstaged := by
    have hfault : MemoryWorld.fault w = .ok () w := by simp [MemoryWorld.fault, hw]
    obtain ⟨data, hdata⟩ := Option.ne_none_iff_exists'.mp hstaged
    have hfind : w.staged.find key = some data := hdata
    simp only [memoryBackend, post_bind, post_get]
    unfold Post
    simp only [hfault, hfind]
    exact hw
  verify key d w hw := by
    simp only [memoryBackend, post_bind, post_get]
    cases w.objects.find key with
    | none => exact hw
    | some data => exact hw

/-- Memory without faults answers truthfully. -/
theorem memory_backend_truthful (H : StreamHash) :
    (memoryBackend H).Truthful H MemoryWorld.view (fun w => w.faults = []) where
  toServes := memory_backend_serves H
  read_absent key w hw hobject := by
    have hfault : MemoryWorld.fault w = .ok () w := by simp [MemoryWorld.fault, hw]
    have hfind : w.objects.find key = none := hobject
    simp only [memoryBackend, post_bind, post_get]
    unfold Post
    simp only [hfault, hfind]
    exact Exn.noConfusion
  exists_key key w hw := ⟨rfl, rfl, hw⟩
  verify key d w hw := by
    simp only [memoryBackend, post_bind, post_get]
    cases hfind : w.objects.find key with
    | none =>
        refine ⟨?_, rfl, hw⟩
        simp [MemoryWorld.view, hfind, StreamHash.judge]
    | some data =>
        refine ⟨?_, rfl, hw⟩
        simp [MemoryWorld.view, hfind, StreamHash.judge]

end Memory

end CheckpointStore
