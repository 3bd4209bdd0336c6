import CheckpointStore.Model.MachineReader
import CheckpointStore.Persistence.StateFile

/-!
# Loading reads no byte outside the body

The record parsers reach the body through the methods of the reader only (`Parsing`), and
`load_state` adds to them what it assigns to the store and the question how many bytes remain
(`LoadingBy`). Loading is therefore a program of such calls, which runs on 64-bit positions as well
(`load_body_simulated`): it always ends, never leaves the body, and throws nothing but `kTruncated`
and `kMalformed`.
-/

namespace CheckpointStore

open Foundation Foundation.Procedure

variable {W α β : Type}

/-- The exceptions of a parser: too few bytes, or bytes that it refuses. -/
def ParseError (e : Exn) : Prop :=
  ∃ message, e = .error .truncated message ∨ e = .error .malformed message

/-! ## The record parsers -/

/-- A parser that makes nothing but calls of the reader. -/
class Parsing (m : Proc BinReader α) : Prop where
  performs : Performs ReaderCall.read ParseError m

section Parsers

instance (a : α) : Parsing (pure a : Proc BinReader α) := ⟨performs_pure a⟩

instance {m : Proc BinReader α} {f : α → Proc BinReader β} [hm : Parsing m]
    [hf : ∀ a, Parsing (f a)] : Parsing (m >>= f) :=
  ⟨performs_bind hm.performs fun a => (hf a).performs⟩

instance {c : Prop} [Decidable c] {m m' : Proc BinReader α} [h : Parsing m] [h' : Parsing m'] :
    Parsing (if c then m else m') := ⟨performs_ite h.performs h'.performs⟩

instance (message : String) : Parsing (throwStoreError .malformed message : Proc BinReader α) :=
  ⟨performs_throw ⟨message, .inr rfl⟩⟩

instance : Parsing BinReader.u8 := ⟨performs_call ReaderCall.u8⟩

instance : Parsing BinReader.u32 := ⟨performs_call ReaderCall.u32⟩

instance : Parsing BinReader.u64 := ⟨performs_call ReaderCall.u64⟩

instance : Parsing BinReader.boolean := ⟨performs_call ReaderCall.boolean⟩

instance : Parsing BinReader.string := ⟨performs_call ReaderCall.string⟩

instance : Parsing BinReader.sha256 := ⟨performs_call ReaderCall.sha256⟩

instance (period : ClockPeriod) : Parsing (BinReader.timePoint period) :=
  ⟨performs_call (ReaderCall.timePoint period)⟩

instance {kind : IdKind} : Parsing (@BinReader.id kind) := by
  unfold BinReader.id
  infer_instance

instance {kind : GenerationKind} : Parsing (@BinReader.generation kind) := by
  unfold BinReader.generation
  infer_instance

instance [ByteEnum α] : Parsing (BinReader.enum : Proc BinReader α) := by
  unfold BinReader.enum
  infer_instance

instance : Parsing BinReader.count := by
  unfold BinReader.count
  infer_instance

instance {read : Proc BinReader α} [Parsing read] (n : Nat) :
    Parsing (BinReader.repeated read n) := by
  induction n with
  | zero => exact ⟨performs_pure []⟩
  | succ n ih =>
      unfold BinReader.repeated
      infer_instance

instance {read : Proc BinReader α} [Parsing read] : Parsing (BinReader.list read) := by
  unfold BinReader.list
  infer_instance

instance {read : Proc BinReader α} [Parsing read] : Parsing (BinReader.optional read) := by
  unfold BinReader.optional
  infer_instance

instance (period : ClockPeriod) : Parsing (BinReader.readDescriptor period) := by
  unfold BinReader.readDescriptor
  infer_instance

instance : Parsing BinReader.readManifestEntry := by
  unfold BinReader.readManifestEntry
  infer_instance

instance : Parsing BinReader.readManifest := by
  unfold BinReader.readManifest
  infer_instance

instance : Parsing BinReader.readChunk := by
  unfold BinReader.readChunk
  infer_instance

instance : Parsing BinReader.readReplicaSet := by
  unfold BinReader.readReplicaSet
  infer_instance

instance : Parsing BinReader.readBlobDescriptor := by
  unfold BinReader.readBlobDescriptor
  infer_instance

instance : Parsing BinReader.readReplica := by
  unfold BinReader.readReplica
  infer_instance

instance : Parsing BinReader.readPlacement := by
  unfold BinReader.readPlacement
  infer_instance

instance : Parsing BinReader.readRetention := by
  unfold BinReader.readRetention
  infer_instance

instance : Parsing BinReader.readFamily := by
  unfold BinReader.readFamily
  infer_instance

instance : Parsing BinReader.readDedup := by
  unfold BinReader.readDedup
  infer_instance

instance (period : ClockPeriod) : Parsing (BinReader.readRecord period) := by
  unfold BinReader.readRecord
  infer_instance

end Parsers

/-! ## Loading -/

/-- What `load_state` does while it goes through a body. -/
inductive LoadCall (W : Type) where
  | read (c : ReaderCall)
  | remaining
  | store
  | update (f : Store W → Store W)

namespace LoadCall

/-- What a call returns. -/
def Result : LoadCall W → Type
  | .read c => c.Result
  | .remaining => Nat
  | .store => Store W
  | .update _ => Unit

/-- Make a call. -/
def perform : (c : LoadCall W) → Proc (Loading W) c.Result
  | .read c => fromBody c.read
  | .remaining => do
      let ld ← get
      pure ld.reader.remaining
  | .store => do
      let ld ← get
      pure ld.store
  | .update f => loadInto f

end LoadCall

/-- The state while a body is being loaded, with the position of the reader in 64 bits. -/
structure MachineLoading (W : Type) where
  reader : MachineReader
  store : Store W

namespace MachineLoading

/-- The same load over unbounded numbers. -/
def unbounded (ld : MachineLoading W) : Loading W :=
  { reader := ld.reader.unbounded, store := ld.store }

/-- Call a method of the reader. -/
def fromBody (m : MachineReader.Method α) : Attempt Exn (MachineLoading W) α := fun ld =>
  match m ld.reader with
  | none => none
  | some (.ok a r) => some (.ok a { ld with reader := r })
  | some (.error e r) => some (.error e { ld with reader := r })

end MachineLoading

/-- The same on 64-bit positions. -/
def LoadCall.exec : (c : LoadCall W) → Attempt Exn (MachineLoading W) c.Result
  | .read c => MachineLoading.fromBody c.exec
  | .remaining => fun ld => some (.ok ld.reader.remaining.toNat ld)
  | .store => fun ld => some (.ok ld.store ld)
  | .update f => fun ld => some (.ok () { ld with store := f ld.store })

/-- A procedure that makes nothing but these calls. -/
class LoadingBy (m : Proc (Loading W) α) : Prop where
  performs : Performs LoadCall.perform ParseError m

section Loaders

instance {m : Proc (Loading W) α} {f : α → Proc (Loading W) β} [hm : LoadingBy m]
    [hf : ∀ a, LoadingBy (f a)] : LoadingBy (m >>= f) :=
  ⟨performs_bind hm.performs fun a => (hf a).performs⟩

instance {c : Prop} [Decidable c] {m m' : Proc (Loading W) α} [h : LoadingBy m]
    [h' : LoadingBy m'] : LoadingBy (if c then m else m') :=
  ⟨performs_ite h.performs h'.performs⟩

instance (message : String) :
    LoadingBy (throwStoreError .malformed message : Proc (Loading W) α) :=
  ⟨performs_throw ⟨message, .inr rfl⟩⟩

instance (f : Store W → Store W) : LoadingBy (loadInto f) := ⟨performs_call (LoadCall.update f)⟩

instance {m : Proc BinReader α} [h : Parsing m] : LoadingBy (fromBody m : Proc (Loading W) α) := by
  have hcalls : ∀ c : ReaderCall, Performs LoadCall.perform ParseError
      (zoom Loading.reader (fun r (ld : Loading W) => { ld with reader := r }) c.read) :=
    fun c => performs_call (LoadCall.read c)
  refine ⟨performs_zoom ?_ ?_ ?_ hcalls h.performs⟩
  · exact fun _ => rfl
  · exact fun _ _ => rfl
  · exact fun _ _ _ => rfl

/-- One step of a long sequence. -/
theorem loading_by_next {m m' : Proc (Loading W) Unit} [hm : LoadingBy m] (h : LoadingBy m') :
    LoadingBy (do m; m') := ⟨performs_bind hm.performs fun _ => h.performs⟩

/-- Looking at the store. -/
theorem loading_by_store {f : Store W → Proc (Loading W) α} (h : ∀ store, LoadingBy (f store)) :
    LoadingBy (do let ld ← get; f ld.store) := by
  have hget : Performs LoadCall.perform ParseError (LoadCall.store.perform >>= f) :=
    performs_bind (performs_call LoadCall.store) fun store => (h store).performs
  exact ⟨hget⟩

/-- Asking how many bytes remain. -/
theorem loading_by_remaining {f : Nat → Proc (Loading W) α} (h : ∀ n, LoadingBy (f n)) :
    LoadingBy (do let ld ← get; f ld.reader.remaining) := by
  have hget : Performs LoadCall.perform ParseError (LoadCall.remaining.perform >>= f) :=
    performs_bind (performs_call LoadCall.remaining) fun n => (h n).performs
  exact ⟨hget⟩

instance {m : Proc BinReader α} [Parsing m] (assign : α → Store W → Store W) :
    LoadingBy (loadField m assign) := by
  unfold loadField
  infer_instance

instance {body : Proc (Loading W) Unit} [LoadingBy body] (n : Nat) :
    LoadingBy (loadTimes body n) := by
  induction n with
  | zero => exact ⟨performs_pure ()⟩
  | succ n ih =>
      unfold loadTimes
      infer_instance

instance {read : Proc BinReader α} [Parsing read] (taken : α → Store W → Bool)
    (message : String) (enter : α → Store W → Store W) :
    LoadingBy (loadList read taken message enter) := by
  have hround : ∀ a, LoadingBy (do
      let ld ← get
      if taken a ld.store then throwStoreError .malformed message
      else loadInto (enter a) : Proc (Loading W) Unit) := fun a =>
    @loading_by_store _ _ (fun store =>
      if taken a store then throwStoreError .malformed message else loadInto (enter a))
      fun _ => inferInstance
  unfold loadList
  infer_instance

instance : LoadingBy (loadHeader : Proc (Loading W) Unit) := by
  unfold loadHeader
  repeat refine loading_by_next ?_
  infer_instance

instance : LoadingBy (loadGc : Proc (Loading W) Unit) := by
  unfold loadGc
  infer_instance

instance (period : ClockPeriod) : LoadingBy (loadTables period : Proc (Loading W) Unit) := by
  unfold loadTables loadFamilies loadRecords loadBlobs loadReplicas loadPlacements loadRetention
    loadDedup
  repeat refine loading_by_next ?_
  infer_instance

/-- The loader makes no other calls. -/
theorem loading_by_load_body (period : ClockPeriod) :
    LoadingBy (loadBody period : Proc (Loading W) Unit) := by
  have hlast : LoadingBy (do
      let ld ← get
      if ld.reader.remaining ≠ 0 then throwStoreError .malformed "state body trailing garbage"
      else loadInto recomputeCounters : Proc (Loading W) Unit) :=
    @loading_by_remaining _ _ (fun n =>
      if n ≠ 0 then throwStoreError .malformed "state body trailing garbage"
      else loadInto recomputeCounters) fun _ => inferInstance
  unfold loadBody
  infer_instance

end Loaders

/-! ## On 64-bit positions -/

/-- The reader is on this body, at a position inside it. -/
structure MachineLoading.InBody (body : Bytes) (ld : MachineLoading W) : Prop where
  view_eq : ld.reader.view = body
  in_view : ld.reader.InView

theorem underflow_parse_error : ParseError underflow := ⟨"binary reader underflow", .inl rfl⟩

/-- Every call is the same on 64-bit positions inside the body. -/
theorem exec_simulates_perform (body : Bytes) (c : LoadCall W) :
    Simulates MachineLoading.unbounded (MachineLoading.InBody body) ParseError c.exec
      c.perform := by
  intro ld h
  cases c with
  | read c =>
      obtain ⟨result, hrun, hends⟩ := c.exec_ends h.in_view
      obtain ⟨hview, hin⟩ := hends.in_view h.in_view
      obtain ⟨result', hrun', hread, -, hthrown⟩ :=
        MachineReader.exec_refines_read c ld.reader h.in_view
      obtain rfl : result' = result := Option.some_inj.mp (hrun'.symm.trans hrun)
      have hperform : c.read ld.unbounded.reader = mapState MachineReader.unbounded result' :=
        hread.symm
      simp only [LoadCall.exec, LoadCall.perform, MachineLoading.fromBody, fromBody, zoom, hrun,
        hperform]
      cases result' with
      | ok a r => exact ⟨_, rfl, rfl, ⟨hview.trans h.view_eq, hin⟩, fun _ he => by cases he⟩
      | error e r =>
          refine ⟨_, rfl, rfl, ⟨hview.trans h.view_eq, hin⟩, fun e' he => ?_⟩
          obtain rfl : e = e' := Option.some_inj.mp he
          rw [hthrown e rfl]
          exact underflow_parse_error
  | remaining =>
      refine ⟨.ok ld.reader.remaining.toNat ld, rfl, ?_, h, fun _ he => by cases he⟩
      rw [h.in_view.remaining_to_nat]
      rfl
  | store => exact ⟨.ok ld.store ld, rfl, rfl, h, fun _ he => by cases he⟩
  | update f =>
      exact ⟨.ok () { ld with store := f ld.store }, rfl, rfl, ⟨h.view_eq, h.in_view⟩,
        fun _ he => by cases he⟩

/-- Loading is a program of these calls, and the program runs on 64-bit positions. -/
theorem load_body_simulated (period : ClockPeriod) (body : Bytes) :
    ∃ p : Program LoadCall.Result Exn Unit, p.run LoadCall.perform = loadBody (W := W) period ∧
      Simulates MachineLoading.unbounded (MachineLoading.InBody body) ParseError
        (p.exec LoadCall.exec) (loadBody period) := by
  obtain ⟨p, hp, hrun⟩ := (loading_by_load_body (W := W) period).performs
  exact ⟨p, hrun, hrun ▸ Program.exec_simulates (exec_simulates_perform body) hp⟩

/-- The reader never leaves its view. After any sequence of calls, whether they returned or threw,
the position is inside the view and the next call ends as `ReaderCall.Ends` says. Loading a body is
a program of such calls; with 64-bit positions it ends on every body as `loadBody` does, inside the
body, by success, `kTruncated` or `kMalformed`. -/
theorem reader_stays_in_view (view : Bytes) (hroom : view.length + 8 < 2 ^ 64) :
    (∀ (calls : List ReaderCall) (c : ReaderCall), ∃ r result,
      calls.foldlM ReaderCall.after { view := view } = some r ∧ r.view = view ∧
        r.pos.toNat ≤ view.length ∧ c.exec r = some result ∧ c.Ends r result) ∧
    ∀ (W : Type) (period : ClockPeriod) (store : Store W),
      ∃ p : Program LoadCall.Result Exn Unit, p.run LoadCall.perform = loadBody (W := W) period ∧
        ∃ result,
          p.exec LoadCall.exec { reader := { view := view }, store := store } = some result ∧
          mapState MachineLoading.unbounded result =
            loadBody period { reader := { view := view }, store := store } ∧
          (finalState result).reader.view = view ∧
          (finalState result).reader.pos.toNat ≤ view.length ∧
          ∀ e, thrown result = some e → ParseError e := by
  have hstart : MachineReader.InView { view := view } := ⟨Nat.zero_le _, hroom⟩
  refine ⟨fun calls c => ?_, fun W period store => ?_⟩
  · obtain ⟨r, hcalls, hview, hin⟩ := ReaderCall.exec_all_ends calls hstart
    obtain ⟨result, hrun, hends⟩ := c.exec_ends hin
    have hpos : r.pos.toNat ≤ r.view.length := hin.pos_le
    rw [hview] at hpos
    exact ⟨r, result, hcalls, hview, hpos, hrun, hends⟩
  · obtain ⟨p, hrun, hsimulates⟩ := load_body_simulated (W := W) period view
    obtain ⟨result, hexec, hresult, hin, hthrown⟩ :=
      hsimulates { reader := { view := view }, store := store } ⟨rfl, hstart⟩
    have hpos := hin.in_view.pos_le
    rw [hin.view_eq] at hpos
    exact ⟨p, hrun, result, hexec, hresult, hin.view_eq, hpos, hthrown⟩

/-- A length of `2 ^ 64 - 1`: the length itself is consumed, and nothing behind it. -/
theorem reader_stays_in_view_of_huge_length :
    let view : Bytes := List.replicate 8 0xff
    ReaderCall.bytes.exec { view := view } = some (.error underflow { view := view, pos := 8 }) ∧
      ∃ r result, [ReaderCall.bytes].foldlM ReaderCall.after { view := view } = some r ∧
        r.view = view ∧ r.pos.toNat ≤ view.length ∧ ReaderCall.u8.exec r = some result ∧
          ReaderCall.u8.Ends r result :=
  ⟨rfl, (reader_stays_in_view (List.replicate 8 0xff) (by decide)).1 [.bytes] .u8⟩

end CheckpointStore
