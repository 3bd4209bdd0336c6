import CheckpointStore.Coordinator.Dispatch
import CheckpointStore.Safety.Records

/-!
# Authority and epochs

Who may write, over whole runs of a coordinator. A boot that has lost its authority gets it back
only by registering while nobody has it (`revoked_boot_refused`); nothing else keeps it out. In
one epoch only one registered boot writes, apart from boot 0, which is also the mark for nobody
(`one_writer_per_epoch`). Within the life of one process old epochs are fenced off, and a restart
begins again with epoch 1 (`old_epoch_refused`).
-/

namespace CheckpointStore

open Foundation Foundation.Procedure ProtoOps

variable {W : Type}

/-! ## One request -/

/-- The boot that a request registers. -/
def Request.registers (r : Request) : Option UInt64 :=
  if r.kind = .registerBackend then (decode readRegister r.payload).toOption.map Prod.fst else none

theorem kind_of_registers {r : Request} {b : UInt64} (h : r.registers = some b) :
    r.kind = .registerBackend := by
  unfold Request.registers at h
  by_contra hkind
  simp [hkind] at h

namespace Control

variable (c : Control) (r : Request)

theorem checked_eq (ok : Bool) : (c.checked ok).activeBoot = c.activeBoot ∧
    (c.checked ok).epoch = c.epoch ∧ (c.checked ok).revoked = c.revoked := by
  cases ok <;> exact ⟨rfl, rfl, rfl⟩

/-- What a request can do to the authority. -/
theorem after_cases :
    (r.kind = .advanceEpoch ∧ r.registers = none ∧ (c.after r).activeBoot = 0 ∧
        (c.after r).epoch = c.epoch + 1 ∧ (c.after r).revoked = c.revoked) ∨
      (r.kind ≠ .advanceEpoch ∧ (c.after r).epoch = c.epoch ∧ (c.after r).revoked = c.revoked ∧
        ((∃ boot, r.registers = some boot ∧ c.vacantFor boot = true ∧
            (c.after r).activeBoot = boot) ∨
          ((∀ boot, r.registers = some boot → c.vacantFor boot = false) ∧
            (c.after r).activeBoot = c.activeBoot))) := by
  have hchecked : ∀ {β : Type} (x : Option β) (ok : β → Bool),
      ((x.map fun b => c.checked (ok b)).getD c).activeBoot = c.activeBoot ∧
        ((x.map fun b => c.checked (ok b)).getD c).epoch = c.epoch ∧
        ((x.map fun b => c.checked (ok b)).getD c).revoked = c.revoked := by
    intro β x ok
    cases x with
    | none => exact ⟨rfl, rfl, rfl⟩
    | some b => exact c.checked_eq (ok b)
  unfold after Request.registers
  cases hkind : r.kind with
  | advanceEpoch => exact Or.inl ⟨rfl, rfl, rfl, rfl, rfl⟩
  | registerBackend =>
      refine Or.inr ⟨by simp, ?_⟩
      cases decode readRegister r.payload with
      | error e => exact ⟨rfl, rfl, Or.inr ⟨fun boot h => by simp [Except.toOption] at h, rfl⟩⟩
      | ok req =>
          simp only [Except.toOption, Option.map_some, Option.getD_some, if_true,
            Option.some.injEq, register]
          cases hvacant : c.vacantFor req.1 with
          | true => exact ⟨rfl, rfl, Or.inl ⟨req.1, rfl, hvacant, rfl⟩⟩
          | false =>
              refine ⟨rfl, rfl, Or.inr ⟨?_, rfl⟩⟩
              rintro boot rfl
              exact hvacant
  | publish =>
      obtain ⟨hactive, hepoch, hrevoked⟩ := hchecked (decode readPublish r.payload).toOption
        fun req => c.mayWrite req.auth
      exact Or.inr ⟨by simp, hepoch, hrevoked, Or.inr ⟨by simp, hactive⟩⟩
  | retire | gcRun =>
      obtain ⟨hactive, hepoch, hrevoked⟩ := hchecked (decode readRestore r.payload).toOption
        fun req => c.mayWrite req.1
      exact Or.inr ⟨by simp, hepoch, hrevoked, Or.inr ⟨by simp, hactive⟩⟩
  | restore =>
      obtain ⟨hactive, hepoch, hrevoked⟩ := hchecked (decode readRestore r.payload).toOption
        fun req => c.mayRestore req.1
      exact Or.inr ⟨by simp, hepoch, hrevoked, Or.inr ⟨by simp, hactive⟩⟩
  | _ => exact Or.inr ⟨by simp, rfl, rfl, Or.inr ⟨by simp, rfl⟩⟩

/-- Who may write: the active boot, in the current epoch. -/
theorem may_write_iff (a : AuthorityEnvelope) :
    c.mayWrite a = true ↔ a.boot = c.activeBoot ∧ a.epoch = c.epoch := by
  simp [mayWrite]

end Control

/-! ## Revocation -/

section Revocation

variable {env : Env} {path : Bytes}

/-- A step in which a boot registers while nobody has the authority. -/
def Readmits (b : UInt64) (c : Coordinator W) (e : CoordinatorEvent) : Prop :=
  ∃ r accepted, e = .request r accepted ∧ r.registers = some b ∧ c.control.activeBoot = 0

/-- No boot is ever entered into `revoked_`. -/
theorem revoked_run {start c : Coordinator W} {events : List CoordinatorEvent}
    (hstart : start.control.revoked = []) (hrun : Run (CoordinatorStep env path) start events c) :
    c.control.revoked = [] := by
  refine Run.invariant_on (A := fun _ => True) (fun _ c => c.control.revoked = []) hstart ?_ hrun
    fun _ _ => trivial
  intro _ c _ c' _ hrevoked _ hstep
  cases hstep with
  | outside => exact hrevoked
  | restart => rfl
  | request r =>
      rw [dispatch_control]
      rcases c.control.after_cases r with ⟨_, _, _, _, hsame⟩ | ⟨_, _, hsame, _⟩
      · rw [hsame, hrevoked]
      · rw [hsame, hrevoked]

/-- A boot without authority gets it by registering while nobody has it, and in no other way. -/
theorem active_boot_step_iff {b : UInt64} (hb : b ≠ 0) {c c' : Coordinator W}
    {e : CoordinatorEvent} (h : CoordinatorStep env path c e c')
    (hrevoked : c.control.revoked = []) (hne : c.control.activeBoot ≠ b) :
    c'.control.activeBoot = b ↔ Readmits b c e := by
  cases h with
  | outside => exact iff_of_false hne (by rintro ⟨_, _, ⟨⟩, _⟩)
  | restart => exact iff_of_false hb.symm (by rintro ⟨_, _, ⟨⟩, _⟩)
  | request r =>
      have hreadmits : Readmits b c (.request r (r.accepted c.control)) ↔
          r.registers = some b ∧ c.control.activeBoot = 0 := by
        refine ⟨?_, fun h => ⟨r, _, rfl, h⟩⟩
        rintro ⟨_, _, ⟨⟩, h⟩
        exact h
      have hvacant : ∀ boot, c.control.vacantFor boot = true ↔ c.control.activeBoot = 0 := by
        simp [Control.vacantFor, hrevoked]
      rw [dispatch_control, hreadmits]
      rcases c.control.after_cases r with
        ⟨_, hregisters, hactive, _, _⟩ |
          ⟨_, _, _, ⟨boot, hregisters, hnobody, hactive⟩ | ⟨htaken, hactive⟩⟩
      · rw [hactive, hregisters]
        exact iff_of_false hb.symm (by simp)
      · rw [hactive, hregisters, Option.some.injEq, and_iff_left ((hvacant boot).mp hnobody)]
      · rw [hactive]
        refine iff_of_false hne ?_
        rintro ⟨hregisters, hnobody⟩
        have hno := htaken b hregisters
        rw [(hvacant b).mpr hnobody] at hno
        cases hno

/-- After `kAdvanceEpoch` the requests of a boot, such as the one that was active, are refused as
long as it does not register while nobody has the authority. Once it does, it may write again. -/
theorem revoked_boot_refused {chunkSize : UInt64} {backend : IBackend W} {w : W}
    {before events : List CoordinatorEvent} {c₀ c : Coordinator W} {advance : Request} {b : UInt64}
    (hbefore : Run (CoordinatorStep env path) (.fresh path chunkSize backend w) before c₀)
    (hb : b ≠ 0) (hkind : advance.kind = .advanceEpoch)
    (hrun : Run (fun c e c' => CoordinatorStep env path c e c' ∧ ¬ Readmits b c e)
      (finalState (dispatch env advance c₀)) events c) :
    (∀ r a, r.writes = true → r.envelope = some a → a.boot = b →
      thrown (dispatch env r c) ≠ none ∧ (finalState (dispatch env r c)).system = c.system) ∧
    ∀ e c' a, CoordinatorStep env path c e c' → a.boot = b → a.epoch = c'.control.epoch →
      (c'.control.mayWrite a = true ↔ Readmits b c e) := by
  have hinvariant : c.control.revoked = [] ∧ c.control.activeBoot ≠ b := by
    have hstart : (finalState (dispatch env advance c₀)).control.revoked = [] ∧
        (finalState (dispatch env advance c₀)).control.activeBoot ≠ b := by
      have hfresh : (Coordinator.fresh path chunkSize backend w).control.revoked = [] := rfl
      refine ⟨revoked_run hfresh (hbefore.extend (.request advance)), ?_⟩
      rw [dispatch_control]
      rcases c₀.control.after_cases advance with ⟨_, _, hnobody, _, _⟩ | ⟨hother, _⟩
      · rw [hnobody]
        exact hb.symm
      · exact absurd hkind hother
    refine Run.invariant_on (A := fun _ => True)
      (fun _ c => c.control.revoked = [] ∧ c.control.activeBoot ≠ b) hstart ?_ hrun
      fun _ _ => trivial
    rintro _ c e c' _ ⟨hrevoked, hne⟩ _ ⟨hstep, hreadmits⟩
    refine ⟨revoked_run hrevoked (Run.start.extend hstep), fun hagain => hreadmits ?_⟩
    exact (active_boot_step_iff hb hstep hrevoked hne).mp hagain
  obtain ⟨hrevoked, hne⟩ := hinvariant
  refine ⟨fun r a hwrites ha hboot => dispatch_refused ?_, fun e c' a hstep hboot hepoch => ?_⟩
  · rw [Bool.eq_false_iff]
    intro haccepted
    obtain ⟨a', ha', hmay⟩ := accepted_write hwrites haccepted
    rw [ha] at ha'
    cases ha'
    exact hne ((Control.may_write_iff _ _).mp hmay |>.1.symm.trans hboot)
  · rw [Control.may_write_iff, hboot, and_iff_left hepoch, eq_comm]
    exact active_boot_step_iff hb hstep hrevoked hne

/-! ### A coordinator on an in-memory backend -/

/-- A coordinator with one-byte chunks. -/
def sampleCoordinator (H : StreamHash) : Coordinator MemoryWorld :=
  .fresh [115] 1 (memoryBackend H) {}

/-- A boot registers. -/
def registerRequest (boot : UInt64) : Request where
  kind := .registerBackend
  payload := encodeRegister boot []

/-- The epoch is advanced. -/
def advanceRequest : Request where
  kind := .advanceEpoch

/-- A boot asks for a collection. -/
def collectRequest (boot epoch : UInt64) : Request where
  kind := .gcRun
  payload := encodeRestore ⟨boot, epoch, 0⟩ 0

/-- Boot 5 is revoked and boot 6 registers: boot 5 stays out in the next epoch. -/
theorem revoked_boot_refused_other_registered :
    let env := sampleEnv tagHash
    let c₀ := serveAll env (sampleCoordinator tagHash) [registerRequest 5]
    let c := finalState (dispatch env (registerRequest 6)
      (finalState (dispatch env advanceRequest c₀)))
    c₀.control.activeBoot = 5 ∧ thrown (dispatch env (collectRequest 5 2) c) ≠ none := by
  intro env c₀ c
  have hrun : Run (fun c e c' => CoordinatorStep env [115] c e c' ∧ ¬ Readmits 5 c e)
      (finalState (dispatch env advanceRequest c₀)) [.request (registerRequest 6) true] c := by
    refine Run.start.extend ⟨.request (registerRequest 6), ?_⟩
    rintro ⟨_, _, ⟨⟩, hregisters, _⟩
    revert hregisters
    decide
  refine ⟨by decide +kernel, ?_⟩
  exact ((revoked_boot_refused (run_serve env [115] (sampleCoordinator tagHash) [registerRequest 5])
    (b := 5) (by decide) rfl hrun).1 (collectRequest 5 2) ⟨5, 2, 0⟩ (by decide) (by decide) rfl).1

/-- Boot 5 is revoked, registers again, and collects in the next epoch. -/
theorem revoked_boot_registers_again :
    let env := sampleEnv sha256Hash
    let c₀ := serveAll env (sampleCoordinator sha256Hash) [registerRequest 5]
    let c := serveAll env c₀ [advanceRequest, registerRequest 5]
    c₀.control.activeBoot = 5 ∧ (collectRequest 5 2).accepted c.control = true ∧
      thrown (dispatch env (collectRequest 5 2) c) = none := by
  decide +kernel

end Revocation

/-! ## One writer in an epoch -/

section Writers

variable {env : Env} {path : Bytes}

/-- An event that advances the epoch. -/
def CoordinatorEvent.advances : CoordinatorEvent → Bool
  | .request r _ => r.kind = .advanceEpoch
  | _ => false

/-- The number of times the epoch was advanced. -/
def epochAdvances (events : List CoordinatorEvent) : Nat :=
  events.countP CoordinatorEvent.advances

/-- The epoch after some events in the life of one process. -/
def epochAfter (start : UInt64) (events : List CoordinatorEvent) : UInt64 :=
  start + UInt64.ofNat (epochAdvances events)

theorem epoch_advances_append (events more : List CoordinatorEvent) :
    epochAdvances (events ++ more) = epochAdvances events + epochAdvances more :=
  List.countP_append

/-- Two stretches of events, one after the other. -/
theorem epoch_after_append (start : UInt64) (events more : List CoordinatorEvent) :
    epochAfter start (events ++ more) = epochAfter (epochAfter start events) more := by
  simp only [epochAfter, epoch_advances_append, UInt64.ofNat_add, UInt64.add_assoc]

/-- The epoch counts the advances. -/
theorem epoch_run {start c : Coordinator W} {events : List CoordinatorEvent}
    (hrun : Run (CoordinatorStep env path) start events c) (hlife : .restart ∉ events) :
    c.control.epoch = epochAfter start.control.epoch events := by
  refine Run.invariant_on (A := fun e => e ≠ .restart)
    (fun events c => c.control.epoch = epochAfter start.control.epoch events) ?_ ?_ hrun ?_
  · simp [epochAfter, epochAdvances]
  · intro events c e c' _ hepoch hlives hstep
    rw [epoch_after_append, ← hepoch]
    cases hstep with
    | outside => simp [epochAfter, epochAdvances, CoordinatorEvent.advances]
    | restart => exact absurd rfl hlives
    | request r =>
        rw [dispatch_control]
        rcases c.control.after_cases r with ⟨hkind, _, _, hnext, _⟩ | ⟨hkind, hnext, _⟩
        · simp [epochAfter, epochAdvances, CoordinatorEvent.advances, hkind, hnext]
        · simp [epochAfter, epochAdvances, CoordinatorEvent.advances, hkind, hnext]
  · rintro e hin rfl
    exact hlife hin

/-- A write accepted under boot 0, the mark for nobody. -/
def CoordinatorEvent.writesAsNobody : CoordinatorEvent → Bool
  | .request r accepted => accepted && r.writes && r.envelope.map AuthorityEnvelope.boot = some 0
  | _ => false

/-- The active boot has registered in this epoch, and all that was written in it was written by
the active boot. -/
structure WriterKnown (events : List CoordinatorEvent) (active : UInt64) : Prop where
  registered : active ≠ 0 → ∃ before r accepted after,
    events = before ++ .request r accepted :: after ∧ r.registers = some active ∧
      epochAdvances after = 0
  writers : ∀ before r after a, events = before ++ .request r true :: after → r.writes = true →
    r.envelope = some a → epochAdvances after = 0 → a.boot = active

/-- An event of a longer history is the last one, or was there before. -/
theorem split_last {events before after : List CoordinatorEvent} {e x : CoordinatorEvent}
    (h : events ++ [e] = before ++ x :: after) :
    (before = events ∧ x = e ∧ after = []) ∨
      ∃ after', after = after' ++ [e] ∧ events = before ++ x :: after' := by
  rcases List.eq_nil_or_concat after with rfl | ⟨after', last, rfl⟩
  · obtain ⟨rfl, hlast⟩ := List.append_inj' h rfl
    cases hlast
    exact Or.inl ⟨rfl, rfl, rfl⟩
  · rw [List.concat_eq_append, ← List.cons_append, ← List.append_assoc] at h
    obtain ⟨rfl, hlast⟩ := List.append_inj' h rfl
    cases hlast
    exact Or.inr ⟨after', List.concat_eq_append, rfl⟩

theorem epoch_advances_concat (events : List CoordinatorEvent) (e : CoordinatorEvent) :
    epochAdvances (events ++ [e]) = 0 ↔ epochAdvances events = 0 ∧ e.advances = false := by
  rw [epoch_advances_append, Nat.add_eq_zero_iff]
  simp [epochAdvances]

namespace WriterKnown

variable {events : List CoordinatorEvent} {active : UInt64} {e : CoordinatorEvent}

/-- The active boot goes on writing. -/
theorem keep (h : WriterKnown events active) (hsame : e.advances = false)
    (hwrite : ∀ r a, e = .request r true → r.writes = true → r.envelope = some a →
      a.boot = active) : WriterKnown (events ++ [e]) active where
  registered hactive := by
    obtain ⟨before, r, accepted, after, rfl, hregisters, hnone⟩ := h.registered hactive
    refine ⟨before, r, accepted, after ++ [e], by simp, hregisters, ?_⟩
    exact (epoch_advances_concat after e).mpr ⟨hnone, hsame⟩
  writers before r after a hsplit hwrites ha hnone := by
    rcases split_last hsplit with ⟨_, rfl, _⟩ | ⟨after', rfl, hsplit'⟩
    · exact hwrite r a rfl hwrites ha
    · exact h.writers before r after' a hsplit' hwrites ha
        ((epoch_advances_concat after' e).mp hnone).1

/-- A new epoch begins without a writer. -/
theorem advanced (hadvances : e.advances = true) : WriterKnown (events ++ [e]) 0 where
  registered h := absurd rfl h
  writers before r after a hsplit hwrites _ hnone := by
    rcases split_last hsplit with ⟨_, rfl, _⟩ | ⟨after', rfl, _⟩
    · simp only [CoordinatorEvent.advances, decide_eq_true_eq] at hadvances
      simp [Request.writes, hadvances] at hwrites
    · simp [((epoch_advances_concat after' e).mp hnone).2] at hadvances

/-- A boot takes over when nobody is active. -/
theorem taken (h : WriterKnown events 0) (hnobody : ∀ e ∈ events, e.writesAsNobody = false)
    {r : Request} {accepted : Bool} {b : UInt64} (hregisters : r.registers = some b) :
    WriterKnown (events ++ [.request r accepted]) b where
  registered _ := ⟨events, r, accepted, [], rfl, hregisters, rfl⟩
  writers before q after a hsplit hwrites ha hnone := by
    rcases split_last hsplit with ⟨_, heq, _⟩ | ⟨after', rfl, hsplit'⟩
    · cases heq
      simp [Request.writes, kind_of_registers hregisters] at hwrites
    · -- whatever was written in this epoch was written as nobody
      have hzero := h.writers before q after' a hsplit' hwrites ha
        ((epoch_advances_concat after' _).mp hnone).1
      have hno := hnobody (.request q true) (by simp [hsplit'])
      simp [CoordinatorEvent.writesAsNobody, hwrites, ha, hzero] at hno

/-- One more event keeps the writer known. -/
theorem step {c c' : Coordinator W} (h : WriterKnown events c.control.activeBoot)
    (hnobody : ∀ e ∈ events, e.writesAsNobody = false) (hlives : e ≠ .restart)
    (hstep : CoordinatorStep env path c e c') :
    WriterKnown (events ++ [e]) c'.control.activeBoot := by
  cases hstep with
  | outside => exact h.keep rfl (by rintro _ _ ⟨⟩)
  | restart => exact absurd rfl hlives
  | request r =>
      rw [dispatch_control]
      rcases c.control.after_cases r with
        ⟨hkind, _, hactive, _, _⟩ |
          ⟨hkind, _, _, ⟨boot, hregisters, hvacant, hactive⟩ | ⟨_, hactive⟩⟩
      · rw [hactive]
        exact advanced (by simpa [CoordinatorEvent.advances] using hkind)
      · have hzero : c.control.activeBoot = 0 := by
          simp only [Control.vacantFor, decide_eq_true_eq] at hvacant
          exact hvacant.1
        rw [hactive]
        rw [hzero] at h
        exact h.taken hnobody hregisters
      · rw [hactive]
        refine h.keep (by simpa [CoordinatorEvent.advances] using hkind) ?_
        intro q a heq hwrites ha
        simp only [CoordinatorEvent.request.injEq] at heq
        obtain ⟨rfl, haccepted⟩ := heq
        obtain ⟨a', ha', hmay⟩ := accepted_write hwrites haccepted
        rw [ha] at ha'
        cases ha'
        exact ((Control.may_write_iff _ _).mp hmay).1

end WriterKnown

/-- In every run the active boot is known from the events. -/
theorem writer_known_run {chunkSize : UInt64} {backend : IBackend W} {w : W}
    {events : List CoordinatorEvent} {c : Coordinator W}
    (hrun : Run (CoordinatorStep env path) (.fresh path chunkSize backend w) events c)
    (hlife : .restart ∉ events) (hnobody : ∀ e ∈ events, e.writesAsNobody = false) :
    WriterKnown events c.control.activeBoot := by
  have hstart : WriterKnown [] 0 := ⟨fun h => absurd rfl h, fun before r after a h => by simp at h⟩
  have hboth := Run.invariant_on (A := fun e => e ≠ .restart ∧ e.writesAsNobody = false)
    (fun events (c : Coordinator W) => WriterKnown events c.control.activeBoot ∧
      ∀ e ∈ events, e.writesAsNobody = false) ⟨hstart, by simp⟩ ?_ hrun ?_
  · exact hboth.1
  · rintro events c e c' _ ⟨hknown, hclean⟩ ⟨hlives, he⟩ hstep
    refine ⟨hknown.step hclean hlives hstep, ?_⟩
    simpa [or_imp, forall_and, hclean] using ⟨hclean, he⟩
  · exact fun e hin => ⟨fun h => hlife (h ▸ hin), hnobody e hin⟩

/-- Fewer than `2 ^ 64` advances: the epoch is the same only if there was none in between. -/
theorem epoch_advances_of_same {start : UInt64} {before after : List CoordinatorEvent}
    (hbound : epochAdvances (before ++ after) < 2 ^ 64)
    (hsame : epochAfter start before = epochAfter start (before ++ after)) :
    epochAdvances after = 0 := by
  have hnat := congrArg UInt64.toNat hsame
  simp only [epochAfter, epoch_advances_append, UInt64.toNat_add, UInt64.toNat_ofNat',
    epoch_advances_append] at hnat hbound
  omega

/-- In the life of one process, with fewer than `2 ^ 64` epochs and no accepted write under boot 0:
the writes accepted in an epoch carry the same boot, and that boot has registered in the epoch. -/
theorem one_writer_per_epoch {chunkSize : UInt64} {backend : IBackend W} {w : W}
    {events : List CoordinatorEvent} {c : Coordinator W}
    (hrun : Run (CoordinatorStep env path) (.fresh path chunkSize backend w) events c)
    (hlife : .restart ∉ events) (hbound : epochAdvances events < 2 ^ 64)
    (hnobody : ∀ e ∈ events, e.writesAsNobody = false) {r : Request} {a : AuthorityEnvelope}
    (hwrites : r.writes = true) (haccepted : r.accepted c.control = true)
    (ha : r.envelope = some a) (hboot : a.boot ≠ 0) :
    c.control.epoch = epochAfter 1 events ∧
    (∃ before q accepted after, events = before ++ .request q accepted :: after ∧
      q.registers = some a.boot ∧ epochAfter 1 before = c.control.epoch) ∧
    ∀ before q after b, events = before ++ .request q true :: after → q.writes = true →
      q.envelope = some b → epochAfter 1 before = c.control.epoch → b.boot = a.boot := by
  have hepoch : c.control.epoch = epochAfter 1 events := epoch_run hrun hlife
  have hknown := writer_known_run hrun hlife hnobody
  obtain ⟨a', ha', hmay⟩ := accepted_write hwrites haccepted
  rw [ha] at ha'
  cases ha'
  have hactive : a.boot = c.control.activeBoot := ((Control.may_write_iff _ _).mp hmay).1
  refine ⟨hepoch, ?_, ?_⟩
  · obtain ⟨before, q, accepted, after, rfl, hregisters, hnone⟩ :=
      hknown.registered (hactive ▸ hboot)
    refine ⟨before, q, accepted, after, rfl, hactive ▸ hregisters, ?_⟩
    have hregister : epochAdvances [.request q accepted] = 0 := by
      simp [epochAdvances, CoordinatorEvent.advances, kind_of_registers hregisters]
    rw [hepoch, List.append_cons, epochAfter, epochAfter, epoch_advances_append,
      epoch_advances_append, hregister, hnone, Nat.add_zero]
  · rintro before q after b rfl hq hb hsame
    have hnone := epoch_advances_of_same hbound (hsame.trans hepoch)
    have hafter : epochAdvances after = 0 := by
      rw [← List.singleton_append, epoch_advances_append] at hnone
      omega
    rw [hactive]
    exact hknown.writers before q after b rfl hq hb hafter

/-- Boot 5 registers, is revoked, registers again and collects twice. -/
theorem one_writer_per_epoch_two_collections :
    let env := sampleEnv tagHash
    let requests := [registerRequest 5, advanceRequest, registerRequest 5, collectRequest 5 2]
    let c := serveAll env (sampleCoordinator tagHash) requests
    let events := serveEvents env (sampleCoordinator tagHash) requests
    (collectRequest 5 2).accepted c.control = true ∧ c.control.epoch = epochAfter 1 events ∧
      ∃ before q accepted after, events = before ++ .request q accepted :: after ∧
        q.registers = some 5 ∧ epochAfter 1 before = c.control.epoch := by
  intro env requests c events
  have hrun : Run (CoordinatorStep env [115])
      (.fresh [115] 1 (memoryBackend tagHash) {}) events c :=
    run_serve env [115] (sampleCoordinator tagHash) requests
  have haccepted : (collectRequest 5 2).accepted c.control = true := by decide +kernel
  obtain ⟨hepoch, hregistered, _⟩ := one_writer_per_epoch hrun
    (restart_not_mem_serve_events _ _ _) (by decide +kernel) (by decide +kernel)
    (r := collectRequest 5 2) (a := ⟨5, 2, 0⟩) (by decide)
    haccepted (by decide) (by decide)
  exact ⟨haccepted, hepoch, hregistered⟩

/-- Two writers in the first epoch: boot 0, which nobody has registered, and boot 5. -/
theorem nobody_writes :
    let env := sampleEnv sha256Hash
    let c₀ := sampleCoordinator sha256Hash
    let c := serveAll env c₀ [collectRequest 0 1, registerRequest 5]
    (collectRequest 0 1).accepted c₀.control = true ∧
      thrown (dispatch env (collectRequest 0 1) c₀) = none ∧
      (collectRequest 5 1).accepted c.control = true ∧
      thrown (dispatch env (collectRequest 5 1) c) = none := by
  decide +kernel

end Writers

/-! ## Restarts -/

section Restarts

variable {env : Env} {path : Bytes}

/-- The requests that carry an envelope. -/
def Request.fenced (r : Request) : Bool := r.writes || r.kind = .restore

/-- An accepted envelope is of the current epoch. -/
theorem accepted_epoch {r : Request} {control : Control} {a : AuthorityEnvelope}
    (hfenced : r.fenced = true) (haccepted : r.accepted control = true)
    (ha : r.envelope = some a) : a.epoch = control.epoch := by
  simp only [Request.fenced, Bool.or_eq_true, decide_eq_true_eq] at hfenced
  rcases hfenced with hwrites | hkind
  · obtain ⟨a', ha', hmay⟩ := accepted_write hwrites haccepted
    rw [ha] at ha'
    cases ha'
    exact ((Control.may_write_iff _ _).mp hmay).2
  · obtain ⟨a', ha', hmay⟩ := accepted_restore hkind haccepted
    rw [ha] at ha'
    cases ha'
    simp only [Control.mayRestore, decide_eq_true_eq] at hmay
    exact hmay.1

/-- Once the epoch is past `e`, requests of epoch `e` are refused for the life of the process. A
restart begins again with epoch 1, so that they are accepted as soon as the epoch of the new
process is `e`. -/
theorem old_epoch_refused {start c : Coordinator W} {events : List CoordinatorEvent} {e : UInt64}
    (hpast : e < start.control.epoch) (hrun : Run (CoordinatorStep env path) start events c)
    (hlife : .restart ∉ events)
    (hbound : start.control.epoch.toNat + epochAdvances events < 2 ^ 64) :
    (∀ r a, r.fenced = true → r.envelope = some a → a.epoch = e →
      thrown (dispatch env r c) ≠ none ∧ (finalState (dispatch env r c)).system = c.system) ∧
    ∀ c₁ c₂ more a, CoordinatorStep env path c .restart c₁ →
      Run (CoordinatorStep env path) c₁ more c₂ → .restart ∉ more → a.epoch = e →
      (c₂.control.mayWrite a = true ↔ epochAfter 1 more = e ∧ a.boot = c₂.control.activeBoot) ∧
      (c₂.control.mayRestore a = true ↔ epochAfter 1 more = e ∧ a.boot ∈ c₂.control.roster) := by
  refine ⟨fun r a hfenced ha hold => dispatch_refused ?_, ?_⟩
  · rw [Bool.eq_false_iff]
    intro haccepted
    have hnow := (accepted_epoch hfenced haccepted ha).symm.trans hold
    rw [epoch_run hrun hlife] at hnow
    have hnat := congrArg UInt64.toNat hnow
    rw [UInt64.lt_iff_toNat_lt] at hpast
    simp only [epochAfter, UInt64.toNat_add, UInt64.toNat_ofNat'] at hnat
    omega
  · intro c₁ c₂ more a hrestart hmore hlife' hold
    have hfirst : c₁.control.epoch = 1 := by
      cases hrestart
      rfl
    have hepoch := epoch_run hmore hlife'
    rw [hfirst] at hepoch
    simp only [Control.may_write_iff, Control.mayRestore, decide_eq_true_eq, hepoch, hold]
    exact ⟨⟨fun h => ⟨h.2.symm, h.1⟩, fun h => ⟨h.2, h.1.symm⟩⟩,
      ⟨fun h => ⟨h.1.symm, h.2⟩, fun h => ⟨h.1.symm, h.2⟩⟩⟩

/-- From epoch 2 on boot 5 registers, collects, is revoked and registers again: in epoch 3 it
collects, and its requests of epoch 1 are still refused. -/
theorem old_epoch_refused_third_epoch :
    let env := sampleEnv tagHash
    let start := serveAll env (sampleCoordinator tagHash) [registerRequest 5, advanceRequest]
    let c := serveAll env start
      [registerRequest 5, collectRequest 5 2, advanceRequest, registerRequest 5]
    1 < start.control.epoch ∧ (collectRequest 5 3).accepted c.control = true ∧
      thrown (dispatch env (collectRequest 5 1) c) ≠ none := by
  intro env start c
  have hpast : 1 < start.control.epoch := by decide +kernel
  have hrun : Run (CoordinatorStep env [115]) start _ c := run_serve env [115] start _
  refine ⟨hpast, by decide +kernel, ?_⟩
  exact ((old_epoch_refused hpast hrun (restart_not_mem_serve_events _ _ _) (by decide +kernel)).1
    (collectRequest 5 1) ⟨5, 1, 0⟩ (by decide) (by decide) rfl).1

/-- The calls of the store behind a registration. -/
def registrationCalls (boot : UInt64) : List (Op MemoryWorld) :=
  [.setAuthorityBoot ⟨boot⟩, .resetAuthority]

/-- The coordinator advances to epoch 2, saves and is started again: boot 5 registers and collects
in epoch 1. -/
theorem old_epoch_accepted_after_restart :
    let env := sampleEnv sha256Hash
    let c := serveAll env (sampleCoordinator sha256Hash) [registerRequest 5, advanceRequest]
    let saved := finalState (dispatch env { kind := .save } c)
    c.control.epoch = 2 ∧ thrown (dispatch env { kind := .save } c) = none ∧
      ∃ c₁, CoordinatorStep env [115] saved .restart c₁ ∧
        thrown (dispatch env (collectRequest 5 1)
          (finalState (dispatch env (registerRequest 5) c₁))) = none := by
  intro env c saved
  have hstore : c.system =
      callAll env (sampleCoordinator sha256Hash).system (registrationCalls 5) :=
    rfl
  have hkeyed : WellKeyed c.system.store := by
    rw [hstore]
    exact well_keyed_run (well_keyed_create _ _) (run_calls env Anything _ _)
  have hrecoverable : Recoverable env.period c.system.store := by decide +kernel
  have hload := reopen_saved_returns hkeyed (save_state_returns env c.system)
    (show (coordinatorOptions [115] 1).statePath = _ from rfl)
    (.assign ⟨1⟩ (memoryBackend sha256Hash) ∅) hrecoverable
  have hfile : saved.system.files.contains [115] = true := by decide +kernel
  refine ⟨by decide +kernel, by decide +kernel, _,
    .restart ((open_store_of_file hfile).trans hload), ?_⟩
  decide +kernel

end Restarts

end CheckpointStore
