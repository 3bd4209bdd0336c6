import CheckpointStore.Coordinator.Protocol
import CheckpointStore.Runs.Operations

/-!
# The coordinator

`Coordinator` of `coordinator.cpp`: a store and, in front of it, the active boot, the epoch and the
registered workers. Every request is decoded, checked for authority where it needs to be, and
served by operations of the store. The log lines and the sockets are left out.

Two theorems sum up a request. `dispatch_control` gives the members besides the store as a function
of the request (`Control.after`), and `dispatch_calls` says which operations of the store have been
called.
-/

namespace CheckpointStore

open Foundation Foundation.Procedure ProtoOps

variable {W α : Type}

/-- The members of `Coordinator` besides the store. Sets are lists without repetition. -/
structure Control where
  activeBoot : UInt64 := 0
  epoch : UInt64 := 1
  staleRejections : UInt64 := 0
  registered : List UInt64 := []
  roster : List UInt64 := []
  revoked : List UInt64 := []
  deriving DecidableEq

/-- The coordinator: its own state and the system of its store. -/
structure Coordinator (W : Type) where
  control : Control := {}
  system : System W

/-- A request, and how the file system answers if it makes the coordinator save. -/
structure Request where
  kind : MessageKind
  payload : Bytes := []
  answers : WriteAnswers := {}

section Lifting

/-- Call the store. -/
def onStore (m : Proc (System W) α) : Proc (Coordinator W) α :=
  zoom Coordinator.system (fun s c => { c with system := s }) m

/-- Change the state of the coordinator. -/
def modifyControl (f : Control → Control) : Proc (Coordinator W) Unit :=
  modify fun c => { c with control := f c.control }

end Lifting

/-! ## The source -/

/-- Count a stale request. -/
def Control.countStale (c : Control) : Control :=
  { c with staleRejections := c.staleRejections + 1 }

/-- `publish_authority_ok`. -/
def publishAuthorityOk (a : AuthorityEnvelope) : Proc (Coordinator W) Bool := do
  let c ← get
  if a.boot ≠ c.control.activeBoot ∨ a.epoch ≠ c.control.epoch then do
    modifyControl Control.countStale
    pure false
  else pure true

/-- `restore_authority_ok`. -/
def restoreAuthorityOk (a : AuthorityEnvelope) : Proc (Coordinator W) Bool := do
  let c ← get
  if a.epoch ≠ c.control.epoch then do
    modifyControl Control.countStale
    pure false
  else if a.boot ∉ c.control.roster then do
    modifyControl Control.countStale
    pure false
  else pure true

/-- Refuse a request whose authority is not accepted. -/
def guarded (check : Proc (Coordinator W) Bool) (message : String)
    (serve : Proc (Coordinator W) Bytes) : Proc (Coordinator W) Bytes := do
  let ok ← check
  if ok = false then throwStoreError .staleAuthority message else serve

/-- `advance_epoch`: the current incarnation loses its authority. -/
def Control.advance (c : Control) : Control :=
  { c with epoch := c.epoch + 1, activeBoot := 0, staleRejections := c.staleRejections + 1 }

/-- Enter a boot into the roster. -/
def Control.enlist (boot : UInt64) (c : Control) : Control :=
  { c with registered := c.registered ++ [boot], roster := c.roster.insert boot }

/-- Whether a registering boot becomes the active one; nothing ever enters `revoked`. -/
def Control.vacantFor (boot : UInt64) (c : Control) : Bool :=
  c.activeBoot = 0 ∧ boot ∉ c.revoked

/-- Give a registering boot the authority, if nobody has it. -/
def takeOver (boot : UInt64) : Proc (Coordinator W) Unit := do
  let c ← get
  if c.control.vacantFor boot then do
    modifyControl fun c => { c with activeBoot := boot }
    onStore (setAuthorityBoot ⟨boot⟩)
    onStore resetAuthority
  else pure ()

/-- `kRegisterBackend`. -/
def handleRegister (payload : Bytes) : Proc (Coordinator W) Bytes := do
  let req ← fromExcept (decode readRegister payload)
  modifyControl (Control.enlist req.1)
  takeOver req.1
  let c ← get
  pure (encodeU64 c.control.epoch)

/-- `kCreateFamily`. -/
def handleCreateFamily (payload : Bytes) : Proc (Coordinator W) Bytes := do
  let _ ← fromExcept (decode BinReader.u64 payload)
  let fam ← onStore createFamily
  pure (encodeU64 fam.value)

/-- Publish a checkpoint that consists of one repeated byte, if memory has room for it. -/
def servePublish (env : Env) (req : PublishRequest) : Proc (Coordinator W) Bytes := do
  let c ← get
  if env.memory c.system.ticks < req.size.toNat then throw .foreign
  else do
    let data := List.replicate req.size.toNat req.fill
    let d ← onStore (makeFullDescriptor env ⟨req.family⟩ ⟨1⟩ (byteSize data) .local)
    let pub ← onStore (publish env d data)
    pure (encodePublishReply pub.descriptor.id.value (UInt64.ofNat pub.manifest.chunks.length)
      pub.dedupHits pub.dedupMisses)

/-- `kPublish`. -/
def handlePublish (env : Env) (payload : Bytes) : Proc (Coordinator W) Bytes := do
  let req ← fromExcept (decode readPublish payload)
  guarded (publishAuthorityOk req.auth) "stale publish authority" (servePublish env req)

/-- `kVerify`. -/
def handleVerify (env : Env) (payload : Bytes) : Proc (Coordinator W) Bytes := do
  let id ← fromExcept (decode BinReader.u64 payload)
  let iv ← onStore (verifyCheckpoint env ⟨id⟩)
  pure (encodeU64 (ByteEnum.toByte iv).toUInt64)

/-- `kRestore` behind the check. -/
def serveRestore (env : Env) (id : UInt64) : Proc (Coordinator W) Bytes := do
  let rc ← onStore (restore env ⟨1⟩ ⟨id⟩)
  pure (encodeRestoreReply (ByteEnum.toByte rc.integrity).toUInt64 (byteSize rc.bytes))

/-- `kRestore`. -/
def handleRestore (env : Env) (payload : Bytes) : Proc (Coordinator W) Bytes := do
  let req ← fromExcept (decode readRestore payload)
  guarded (restoreAuthorityOk req.1) "stale restore authority" (serveRestore env req.2)

/-- `kRetire` behind the check. -/
def serveRetire (env : Env) (id : UInt64) : Proc (Coordinator W) Bytes := do
  onStore (retire env ⟨id⟩)
  pure (encodeU64 id)

/-- `kRetire`. -/
def handleRetire (env : Env) (payload : Bytes) : Proc (Coordinator W) Bytes := do
  let req ← fromExcept (decode readRestore payload)
  guarded (publishAuthorityOk req.1) "stale retire authority" (serveRetire env req.2)

/-- `kGcRun` behind the check. -/
def serveGc (env : Env) : Proc (Coordinator W) Bytes := do
  let _ ← onStore (gcPlan env)
  let res ← onStore (gcRun env)
  pure (encodeU64 (UInt64.ofNat res.reclaimedBlobs.length))

/-- `kGcRun`. -/
def handleGcRun (env : Env) (payload : Bytes) : Proc (Coordinator W) Bytes := do
  let req ← fromExcept (decode readRestore payload)
  guarded (publishAuthorityOk req.1) "stale gc authority" (serveGc env)

/-- The policy of a retention request; all of them have the same identity. -/
def retainPolicy (family latestN : UInt64) : RetentionPolicy where
  id := ⟨1⟩
  familyId := ⟨family⟩
  retentionClass := .keepLatestN
  latestN := latestN

/-- `kRetain`. -/
def handleRetain (payload : Bytes) : Proc (Coordinator W) Bytes := do
  let req ← fromExcept (decode readRetain payload)
  let _ ← onStore (setRetentionPolicy (retainPolicy req.1 req.2))
  pure (encodeU64 req.2)

/-- `kSave`. -/
def handleSave (env : Env) (answers : WriteAnswers) : Proc (Coordinator W) Bytes := do
  onStore (saveState env answers)
  pure (encodeU64 1)

/-- `kAdvanceEpoch`. -/
def handleAdvanceEpoch : Proc (Coordinator W) Bytes := do
  modifyControl Control.advance
  let c ← get
  pure (encodeU64 c.control.epoch)

/-- `Coordinator::dispatch`. -/
def dispatch (env : Env) (r : Request) : Proc (Coordinator W) Bytes :=
  match r.kind with
  | .registerBackend => handleRegister r.payload
  | .createFamily => handleCreateFamily r.payload
  | .publish => handlePublish env r.payload
  | .verify => handleVerify env r.payload
  | .restore => handleRestore env r.payload
  | .retire => handleRetire env r.payload
  | .gcRun => handleGcRun env r.payload
  | .retain => handleRetain r.payload
  | .save => handleSave env r.answers
  | .advanceEpoch => handleAdvanceEpoch
  | _ => throwStoreError .notSupported "unsupported request"

/-- `coordinator_boot_`. -/
def coordinatorBoot : UInt64 := 0xEEEE

/-- The options of the store. -/
def coordinatorOptions (path : Bytes) (chunkSize : UInt64) : StoreOptions where
  statePath := path
  bootId := ⟨coordinatorBoot⟩
  chunkSize := chunkSize

/-- The constructor of `Coordinator`: a fresh store over one backend, loaded if there is a state
file. -/
def openStore (env : Env) (path : Bytes) (chunkSize : UInt64) (backend : IBackend W) :
    Proc (System W) Unit := do
  modifyStore fun _ => Store.create (coordinatorOptions path chunkSize) (.assign ⟨1⟩ backend ∅)
  let s ← get
  if s.files.contains path then loadState env else pure ()

/-- With a state file the store is reopened. -/
theorem open_store_of_file {env : Env} {path : Bytes} {chunkSize : UInt64} {backend : IBackend W}
    {s : System W} (h : s.files.contains path = true) :
    openStore env path chunkSize backend s =
      reopenStore env (coordinatorOptions path chunkSize) (.assign ⟨1⟩ backend ∅) s := by
  show (if s.files.contains path = true then loadState env else pure ()) _ = loadState env _
  rw [if_pos h]

/-! ## The members besides the store -/

namespace Control

/-- The check on requests that change the store. -/
def mayWrite (c : Control) (a : AuthorityEnvelope) : Bool :=
  a.boot = c.activeBoot ∧ a.epoch = c.epoch

/-- The check on restore requests. -/
def mayRestore (c : Control) (a : AuthorityEnvelope) : Bool :=
  a.epoch = c.epoch ∧ a.boot ∈ c.roster

/-- A check that fails is counted. -/
def checked (c : Control) (ok : Bool) : Control := if ok then c else c.countStale

/-- What a registration does. -/
def register (boot : UInt64) (c : Control) : Control :=
  if c.vacantFor boot then { c.enlist boot with activeBoot := boot } else c.enlist boot

/-- What a request does, by its kind and payload alone. -/
def after (r : Request) (c : Control) : Control :=
  match r.kind with
  | .registerBackend =>
      ((decode readRegister r.payload).toOption.map fun req => c.register req.1).getD c
  | .publish =>
      ((decode readPublish r.payload).toOption.map fun req =>
        c.checked (c.mayWrite req.auth)).getD c
  | .retire | .gcRun =>
      ((decode readRestore r.payload).toOption.map fun req => c.checked (c.mayWrite req.1)).getD c
  | .restore =>
      ((decode readRestore r.payload).toOption.map fun req => c.checked (c.mayRestore req.1)).getD c
  | .advanceEpoch => c.advance
  | _ => c

end Control

section Rules

variable {c : Coordinator W} {Q : α → Coordinator W → Prop} {E : Exn → Coordinator W → Prop}

@[simp] theorem post_on_store (m : Proc (System W) α) :
    Post (onStore m) c Q E ↔ Post m c.system (fun a s => Q a { c with system := s })
      (fun e s => E e { c with system := s }) :=
  post_zoom _ _ _

@[simp] theorem post_modify_control {Q : Unit → Coordinator W → Prop} (f : Control → Control) :
    Post (modifyControl f) c Q E ↔ Q () { c with control := f c.control } := Iff.rfl

@[simp] theorem post_publish_authority_ok {Q : Bool → Coordinator W → Prop}
    (a : AuthorityEnvelope) : Post (publishAuthorityOk a) c Q E ↔
      Q (c.control.mayWrite a) { c with control := c.control.checked (c.control.mayWrite a) } := by
  simp only [publishAuthorityOk, post_bind, post_get, post_ite, post_modify_control, post_pure]
  by_cases h : a.boot = c.control.activeBoot ∧ a.epoch = c.control.epoch
  · simp [Control.mayWrite, Control.checked, h.1, h.2]
  · have hno : a.boot ≠ c.control.activeBoot ∨ a.epoch ≠ c.control.epoch := by tauto
    simp [Control.mayWrite, Control.checked, h, hno]

@[simp] theorem post_restore_authority_ok {Q : Bool → Coordinator W → Prop}
    (a : AuthorityEnvelope) : Post (restoreAuthorityOk a) c Q E ↔
      Q (c.control.mayRestore a)
        { c with control := c.control.checked (c.control.mayRestore a) } := by
  simp only [restoreAuthorityOk, post_bind, post_get, post_ite, post_modify_control, post_pure]
  by_cases hepoch : a.epoch = c.control.epoch
  · by_cases hroster : a.boot ∈ c.control.roster
    · simp [Control.mayRestore, Control.checked, hepoch, hroster]
    · simp [Control.mayRestore, Control.checked, hepoch, hroster]
  · simp [Control.mayRestore, Control.checked, hepoch]

/-- The check of an authority returns and counts a refusal. -/
theorem publish_authority_ok_run (a : AuthorityEnvelope) (c : Coordinator W) :
    publishAuthorityOk a c = .ok (c.control.mayWrite a)
      { c with control := c.control.checked (c.control.mayWrite a) } :=
  run_of_post ((post_publish_authority_ok a).mpr ⟨rfl, rfl⟩)

theorem restore_authority_ok_run (a : AuthorityEnvelope) (c : Coordinator W) :
    restoreAuthorityOk a c = .ok (c.control.mayRestore a)
      { c with control := c.control.checked (c.control.mayRestore a) } :=
  run_of_post ((post_restore_authority_ok a).mpr ⟨rfl, rfl⟩)

/-- Calling the store leaves the other members alone. -/
theorem post_on_store_control {m : Proc (System W) α} {P : Control → Prop} (h : P c.control) :
    Post (onStore m) c (fun _ c' => P c'.control) (fun _ c' => P c'.control) := by
  rw [post_on_store]
  exact post_of_runs (fun _ _ _ => h) fun _ _ _ => h

end Rules

section Served

variable {env : Env} {c : Coordinator W}

/-- A request that has been checked changes the other members by the count of a failed check. -/
theorem post_guarded_control {check : Proc (Coordinator W) Bool} {ok : Bool} {message : String}
    {serve : Proc (Coordinator W) Bytes}
    (hcheck : ∀ {Q : Bool → Coordinator W → Prop} {E : Exn → Coordinator W → Prop},
      Post check c Q E ↔ Q ok { c with control := c.control.checked ok })
    (hserve : ∀ c' : Coordinator W, Post serve c' (fun _ c'' => c''.control = c'.control)
      (fun _ c'' => c''.control = c'.control)) :
    Post (guarded check message serve) c (fun _ c' => c'.control = c.control.checked ok)
      (fun _ c' => c'.control = c.control.checked ok) := by
  rw [guarded, post_bind, hcheck, post_ite]
  exact ⟨fun _ => rfl, fun _ => hserve _⟩

theorem post_serve_publish_control (req : PublishRequest) (c' : Coordinator W) :
    Post (servePublish env req) c' (fun _ c'' => c''.control = c'.control)
      (fun _ c'' => c''.control = c'.control) := by
  unfold servePublish
  simp only [post_ite, post_throw, post_bind, post_get, post_pure]
  refine ⟨fun _ => trivial, fun _ => ?_⟩
  rw [post_on_store]
  refine post_of_runs (fun d s _ => ?_) fun _ _ _ => rfl
  exact post_on_store_control (P := fun control => control = c'.control) rfl

/-- A reply made from what the store returns leaves the other members alone. -/
theorem post_reply_control {β : Type} (m : Proc (System W) β) (reply : β → Bytes)
    (c' : Coordinator W) :
    Post (onStore m >>= fun b => pure (reply b)) c' (fun _ c'' => c''.control = c'.control)
      (fun _ c'' => c''.control = c'.control) := by
  rw [post_bind]
  exact post_on_store_control (P := fun control => control = c'.control) rfl

theorem post_serve_gc_control (c' : Coordinator W) :
    Post (serveGc env) c' (fun _ c'' => c''.control = c'.control)
      (fun _ c'' => c''.control = c'.control) := by
  unfold serveGc
  rw [post_bind, post_on_store]
  exact post_of_runs (fun _ s _ => post_reply_control _ _ { c' with system := s })
    fun _ _ _ => rfl

/-- A boot takes over where nobody is active. -/
theorem post_take_over_control (boot : UInt64) :
    Post (takeOver boot) c (fun _ c' => c'.control =
      if c.control.vacantFor boot then { c.control with activeBoot := boot } else c.control)
      (fun _ _ => False) := by
  simp only [takeOver, post_bind, post_get, post_ite, post_modify_control, post_on_store,
    setAuthorityBoot, resetAuthority, post_modify_store, post_pure]
  exact ⟨fun h => by rw [if_pos h], fun h => by rw [if_neg h]⟩

/-- Decoding comes first: a payload that cannot be read changes nothing. -/
theorem post_decoded {β : Type} {read : Proc BinReader β} {payload : Bytes}
    {f : β → Proc (Coordinator W) Bytes} {g : β → Control}
    (h : ∀ b, Post (f b) c (fun _ c' => c'.control = g b) (fun _ c' => c'.control = g b)) :
    Post (fromExcept (decode read payload) >>= f) c
      (fun _ c' => c'.control = ((decode read payload).toOption.map g).getD c.control)
      (fun _ c' => c'.control = ((decode read payload).toOption.map g).getD c.control) := by
  rw [post_bind, post_from_except]
  cases decode read payload with
  | error e =>
      refine ⟨fun b hb => ?_, fun _ _ => rfl⟩
      simp at hb
  | ok b =>
      refine ⟨fun b' hb => ?_, fun e he => ?_⟩
      · cases hb
        exact h b
      · simp at he

/-- What a request does to the members besides the store. -/
theorem dispatch_control (env : Env) (r : Request) (c : Coordinator W) :
    (finalState (dispatch env r c)).control = c.control.after r := by
  refine post_final (P := fun _ (c' : Coordinator W) => c'.control = c.control.after r) ?_
  have hkept : ∀ {β : Type} {read : Proc BinReader β} {f : β → Proc (Coordinator W) Bytes},
      (∀ b, Post (f b) c (fun _ c' => c'.control = c.control)
        (fun _ c' => c'.control = c.control)) →
      Post (fromExcept (decode read r.payload) >>= f) c (fun _ c' => c'.control = c.control)
        (fun _ c' => c'.control = c.control) := by
    intro β read f h
    have hpost := @post_decoded W c β read r.payload f (fun _ => c.control) h
    have hsame : ((decode read r.payload).toOption.map fun _ => c.control).getD c.control =
        c.control := by
      cases decode read r.payload <;> rfl
    rwa [hsame] at hpost
  unfold dispatch Control.after
  cases r.kind with
  | registerBackend =>
      refine post_decoded fun req => ?_
      rw [post_bind, post_modify_control, post_bind]
      refine (post_take_over_control req.1).mono (fun _ c' h => ?_) fun _ _ h => h.elim
      exact h
  | createFamily => exact hkept fun _ => post_reply_control _ _ c
  | publish =>
      exact post_decoded fun req => post_guarded_control (post_publish_authority_ok req.auth)
        (post_serve_publish_control req)
  | verify => exact hkept fun _ => post_reply_control _ _ c
  | restore =>
      exact post_decoded fun req => post_guarded_control (post_restore_authority_ok req.1)
        (post_reply_control _ _)
  | retire =>
      exact post_decoded fun req => post_guarded_control (post_publish_authority_ok req.1)
        (post_reply_control _ _)
  | gcRun =>
      exact post_decoded fun req => post_guarded_control (post_publish_authority_ok req.1)
        post_serve_gc_control
  | retain => exact hkept fun _ => post_reply_control _ _ c
  | save => exact post_reply_control _ _ c
  | advanceEpoch => rfl
  | _ => rfl

/-! ## The store -/

/-- The policy that an operation sets. -/
def Op.policy : Op W → Option RetentionPolicy
  | .setRetentionPolicy policy => some policy
  | _ => none

/-- The operations that serve requests: there is no restart among them, and what is published has
no ancestors. -/
def Op.serves : Op W → Prop
  | .reopen _ _ => False
  | .publish descriptor _ => descriptor.lineage = []
  | _ => True

/-- The policy that a request sets. -/
def Request.policy (r : Request) : Option RetentionPolicy :=
  if r.kind = .retain then
    (decode readRetain r.payload).toOption.map fun req => retainPolicy req.1 req.2
  else none

/-- Some operations have been called on the store, which set the given policies. -/
def Called (env : Env) (policies : List RetentionPolicy) (s s' : System W) : Prop :=
  ∃ ops : List (Op W), s' = callAll env s ops ∧ (∀ op ∈ ops, op.serves) ∧
    ops.filterMap Op.policy = policies

theorem Called.none (s : System W) : Called env [] s s := ⟨[], rfl, by simp, rfl⟩

/-- One call. -/
theorem Called.one {op : Op W} (hserves : op.serves) (s : System W) :
    Called env op.policy.toList s (finalState (op.run env s)) := by
  refine ⟨[op], rfl, by simpa using hserves, ?_⟩
  cases hpolicy : op.policy with
  | none => simp [hpolicy]
  | some policy => simp [hpolicy]

/-- Calls in two parts. -/
theorem Called.append {policies more : List RetentionPolicy} {s₁ s₂ s₃ : System W}
    (h : Called env policies s₁ s₂) (hmore : Called env more s₂ s₃) :
    Called env (policies ++ more) s₁ s₃ := by
  obtain ⟨ops, rfl, hserves, rfl⟩ := h
  obtain ⟨ops', rfl, hserves', rfl⟩ := hmore
  refine ⟨ops ++ ops', (call_all_append _ _ _ _).symm, ?_, List.filterMap_append⟩
  simpa [or_imp, forall_and] using ⟨hserves, hserves'⟩

/-- The store has been called, with whatever outcome. -/
def Calls (env : Env) (policies : List RetentionPolicy) (m : Proc (Coordinator W) α)
    (c : Coordinator W) : Prop :=
  Post m c (fun _ c' => Called env policies c.system c'.system)
    (fun _ c' => Called env policies c.system c'.system)

/-- A handler that makes one call. -/
theorem calls_on_store {m : Proc (System W) α} (op : Op W)
    (hop : ∀ s, finalState (op.run env s) = finalState (m s)) (hserves : op.serves)
    (c : Coordinator W) : Calls env op.policy.toList (onStore m) c := by
  have hcalled : Called env op.policy.toList c.system (finalState (op.run env c.system)) :=
    .one hserves c.system
  rw [hop] at hcalled
  unfold Calls
  rw [post_on_store]
  refine post_of_runs (fun a s hrun => ?_) fun e s hrun => ?_
  · rwa [hrun] at hcalled
  · rwa [hrun] at hcalled

/-- A call and a reply made from what it returns. -/
theorem calls_reply {β : Type} {m : Proc (System W) β} (op : Op W)
    (hop : ∀ s, finalState (op.run env s) = finalState (m s)) (hserves : op.serves)
    (reply : β → Bytes) (c : Coordinator W) :
    Calls env op.policy.toList (onStore m >>= fun b => pure (reply b)) c := by
  unfold Calls
  rw [post_bind]
  exact calls_on_store op hop hserves c

/-- One part after the other, without policies. -/
theorem calls_bind {β : Type} {m : Proc (Coordinator W) α} {f : α → Proc (Coordinator W) β}
    {P : α → Prop} (h : Calls env [] m c) (hP : Post m c (fun a _ => P a) fun _ _ => True)
    (hf : ∀ a c', P a → Calls env [] (f a) c') : Calls env [] (m >>= f) c := by
  unfold Calls
  rw [post_bind]
  refine (h.and hP).mono (fun a c' hboth => ?_) fun e c' hboth => hboth.1
  exact (hf a c' hboth.2).mono (fun _ _ hmore => hboth.1.append hmore)
    fun _ _ hmore => hboth.1.append hmore

/-- A refused request makes no call. -/
theorem calls_guarded {check : Proc (Coordinator W) Bool} {ok : Bool} {message : String}
    {serve : Proc (Coordinator W) Bytes}
    (hcheck : ∀ {Q : Bool → Coordinator W → Prop} {E : Exn → Coordinator W → Prop},
      Post check c Q E ↔ Q ok { c with control := c.control.checked ok })
    (hserve : ∀ c' : Coordinator W, Calls env [] serve c') :
    Calls env [] (guarded check message serve) c := by
  unfold Calls
  rw [guarded, post_bind, hcheck, post_ite]
  exact ⟨fun _ => .none c.system, fun _ => hserve _⟩

/-- A payload that cannot be read makes no call. -/
theorem calls_decoded {β : Type} {read : Proc BinReader β} {payload : Bytes}
    {f : β → Proc (Coordinator W) Bytes} {policies : List RetentionPolicy}
    (hunread : ∀ e, decode read payload = .error e → policies = [])
    (h : ∀ b, decode read payload = .ok b → Calls env policies (f b) c) :
    Calls env policies (fromExcept (decode read payload) >>= f) c := by
  unfold Calls
  rw [post_bind, post_from_except]
  refine ⟨fun b hb => h b hb, fun e he => ?_⟩
  rw [hunread e he]
  exact .none c.system

theorem post_any {β : Type} (m : Proc (Coordinator W) β) :
    Post m c (fun _ _ => True) fun _ _ => True :=
  post_of_runs (fun _ _ _ => trivial) fun _ _ _ => trivial

theorem calls_take_over (boot : UInt64) (c : Coordinator W) :
    Calls env [] (takeOver boot) c := by
  unfold Calls takeOver
  rw [post_bind, post_get, post_ite]
  refine ⟨fun _ => ?_, fun _ => .none c.system⟩
  rw [post_bind, post_modify_control]
  exact calls_bind (calls_on_store (.setAuthorityBoot ⟨boot⟩) (fun _ => rfl) trivial _) (post_any _)
    fun _ c' _ => calls_on_store .resetAuthority (fun _ => rfl) trivial c'

theorem post_make_full_descriptor_lineage (family : CheckpointFamilyId) (owner : OwnerId)
    (logicalSize : UInt64) (durability : DurabilityClass) (s : System W) :
    Post (makeFullDescriptor env family owner logicalSize durability) s
      (fun d _ => d.lineage = []) (fun _ _ => True) := by
  simp only [makeFullDescriptor, post_bind, post_get]
  cases s.store.nextCheckpointGeneration.find family with
  | none => trivial
  | some next => simp [post_bind, post_next_id, post_now]

/-- A publication makes a descriptor and publishes it. -/
theorem calls_serve_publish (req : PublishRequest) (c : Coordinator W) :
    Calls env [] (servePublish env req) c := by
  show Calls env [] (if env.memory c.system.ticks < req.size.toNat then _ else _) c
  split
  · exact .none c.system
  · refine calls_bind (P := fun d => d.lineage = []) (calls_on_store
      (.makeFullDescriptor ⟨req.family⟩ ⟨1⟩ _ .local) (final_state_map _ _) trivial c) ?_
      fun d c' hd => ?_
    · rw [post_on_store]
      exact post_make_full_descriptor_lineage _ _ _ _ _
    · exact calls_reply (.publish d _) (final_state_map _ _) hd _ c'

/-- A collection is planned and run. -/
theorem calls_serve_gc (c : Coordinator W) : Calls env [] (serveGc env) c :=
  calls_bind (calls_on_store .gcPlan (final_state_map _ _) trivial c) (post_any _)
    fun _ c' _ => calls_reply .gcRun (final_state_map _ _) trivial _ c'

/-- A request calls operations of the store; they set the policy of the request, if it has one. -/
theorem dispatch_calls (env : Env) (r : Request) (c : Coordinator W) :
    Called env r.policy.toList c.system (finalState (dispatch env r c)).system := by
  refine post_final (P := fun _ (c' : Coordinator W) =>
    Called env r.policy.toList c.system c'.system) (?_ : Calls env r.policy.toList _ c)
  unfold dispatch Request.policy
  cases hkind : r.kind with
  | retain =>
      refine calls_decoded (fun e he => by simp [he, Except.toOption]) fun req hreq => ?_
      simp only [hreq, Except.toOption, Option.map_some, if_true]
      exact calls_reply (.setRetentionPolicy (retainPolicy req.1 req.2)) (final_state_map _ _)
        trivial _ c
  | registerBackend =>
      refine calls_decoded (fun _ _ => rfl) fun req _ => ?_
      unfold Calls
      rw [post_bind, post_modify_control, post_bind]
      exact calls_take_over req.1 { c with control := _ }
  | createFamily =>
      exact calls_decoded (fun _ _ => rfl) fun _ _ =>
        calls_reply .createFamily (final_state_map _ _) trivial _ c
  | publish =>
      exact calls_decoded (fun _ _ => rfl) fun req _ =>
        calls_guarded (post_publish_authority_ok req.auth) (calls_serve_publish req)
  | verify =>
      exact calls_decoded (fun _ _ => rfl) fun id _ =>
        calls_reply (.verifyCheckpoint ⟨id⟩) (final_state_map _ _) trivial _ c
  | restore =>
      exact calls_decoded (fun _ _ => rfl) fun req _ =>
        calls_guarded (post_restore_authority_ok req.1)
          (calls_reply (.restore ⟨1⟩ ⟨req.2⟩) (final_state_map _ _) trivial _)
  | retire =>
      exact calls_decoded (fun _ _ => rfl) fun req _ =>
        calls_guarded (post_publish_authority_ok req.1)
          (calls_reply (.retire ⟨req.2⟩) (fun _ => rfl) trivial _)
  | gcRun =>
      exact calls_decoded (fun _ _ => rfl) fun req _ =>
        calls_guarded (post_publish_authority_ok req.1) calls_serve_gc
  | save => exact calls_reply (.saveState r.answers) (fun _ => rfl) trivial _ c
  | _ => exact .none c.system

/-! ## Acceptance -/

/-- A request that changes the store on the authority of the active boot. -/
def Request.writes (r : Request) : Bool :=
  r.kind = .publish ∨ r.kind = .retire ∨ r.kind = .gcRun

/-- The envelope a request carries. -/
def Request.envelope (r : Request) : Option AuthorityEnvelope := envelopeOf r.payload

/-- Whether a request gets past decoding and the check of its authority. Requests without an
envelope always do. -/
def Request.accepted (r : Request) (c : Control) : Bool :=
  match r.kind with
  | .publish =>
      ((decode readPublish r.payload).toOption.map fun req => c.mayWrite req.auth).getD false
  | .retire | .gcRun =>
      ((decode readRestore r.payload).toOption.map fun req => c.mayWrite req.1).getD false
  | .restore =>
      ((decode readRestore r.payload).toOption.map fun req => c.mayRestore req.1).getD false
  | _ => true

/-- A request without authority is refused, and has no effect on the store. -/
theorem post_guarded_refused {check : Proc (Coordinator W) Bool} {message : String}
    {serve : Proc (Coordinator W) Bytes}
    (hcheck : ∀ {Q : Bool → Coordinator W → Prop} {E : Exn → Coordinator W → Prop},
      Post check c Q E ↔ Q false { c with control := c.control.checked false }) :
    Post (guarded check message serve) c (fun _ _ => False)
      (fun _ c' => c'.system = c.system) := by
  rw [guarded, post_bind, hcheck, post_ite]
  exact ⟨fun _ => rfl, fun h => (h rfl).elim⟩

/-- A payload that cannot be read is refused as well. -/
theorem post_decoded_refused {β : Type} {read : Proc BinReader β} {payload : Bytes}
    {f : β → Proc (Coordinator W) Bytes} {ok : β → Bool}
    (hrefused : ((decode read payload).toOption.map ok).getD false = false)
    (hf : ∀ b, ok b = false →
      Post (f b) c (fun _ _ => False) (fun _ c' => c'.system = c.system)) :
    Post (fromExcept (decode read payload) >>= f) c (fun _ _ => False)
      (fun _ c' => c'.system = c.system) := by
  rw [post_bind, post_from_except]
  refine ⟨fun b hb => hf b ?_, fun _ _ => rfl⟩
  simpa [hb, Except.toOption] using hrefused

/-- What is not accepted is refused: the request throws, and the store is as before. -/
theorem dispatch_refused {r : Request} (h : r.accepted c.control = false) :
    thrown (dispatch env r c) ≠ none ∧ (finalState (dispatch env r c)).system = c.system := by
  have hpost : Post (dispatch env r) c (fun _ _ => False) (fun _ c' => c'.system = c.system) := by
    have hwrite := @post_publish_authority_ok W c
    have hrestore := @post_restore_authority_ok W c
    unfold Request.accepted at h
    unfold dispatch
    cases hkind : r.kind with
    | publish =>
        rw [hkind] at h
        refine post_decoded_refused h fun req hno => post_guarded_refused ?_
        intro Q E
        rw [hwrite, hno]
    | restore =>
        rw [hkind] at h
        refine post_decoded_refused h fun req hno => post_guarded_refused ?_
        intro Q E
        rw [hrestore, hno]
    | retire | gcRun =>
        rw [hkind] at h
        refine post_decoded_refused h fun req hno => post_guarded_refused ?_
        intro Q E
        rw [hwrite, hno]
    | _ => simp [hkind] at h
  refine post_final
    (P := fun e (c' : Coordinator W) => e ≠ none ∧ c'.system = c.system) ?_
  exact hpost.mono (fun _ _ h => h.elim) fun _ _ h => ⟨by simp, h⟩

/-- An accepted request has an envelope that passes. -/
theorem envelope_of_accepted {β : Type} {read : Proc BinReader β} {payload : Bytes}
    {authOf : β → AuthorityEnvelope} {may : AuthorityEnvelope → Bool}
    (hread : ∀ b, decode read payload = .ok b → envelopeOf payload = some (authOf b))
    (h : ((decode read payload).toOption.map fun b => may (authOf b)).getD false = true) :
    ∃ a, envelopeOf payload = some a ∧ may a = true := by
  cases hdecode : decode read payload with
  | error e => simp [hdecode, Except.toOption] at h
  | ok b => exact ⟨authOf b, hread b hdecode, by simpa [hdecode, Except.toOption] using h⟩

/-- Only the active boot in the current epoch can write. -/
theorem accepted_write {r : Request} {control : Control} (hwrites : r.writes = true)
    (haccepted : r.accepted control = true) :
    ∃ a, r.envelope = some a ∧ control.mayWrite a = true := by
  unfold Request.accepted at haccepted
  simp only [Request.writes, decide_eq_true_eq] at hwrites
  rcases hwrites with hkind | hkind | hkind
  · rw [hkind] at haccepted
    exact envelope_of_accepted (fun _ => envelope_of_publish) haccepted
  · rw [hkind] at haccepted
    exact envelope_of_accepted (fun _ => envelope_of_restore) haccepted
  · rw [hkind] at haccepted
    exact envelope_of_accepted (fun _ => envelope_of_restore) haccepted

/-- Only a registered boot in the current epoch can restore. -/
theorem accepted_restore {r : Request} {control : Control} (hkind : r.kind = .restore)
    (haccepted : r.accepted control = true) :
    ∃ a, r.envelope = some a ∧ control.mayRestore a = true := by
  unfold Request.accepted at haccepted
  rw [hkind] at haccepted
  exact envelope_of_accepted (fun _ => envelope_of_restore) haccepted

end Served

/-! ## Runs -/

/-- What happened to the coordinator. -/
inductive CoordinatorEvent where
  /-- A request was handled, and accepted or not. -/
  | request (r : Request) (accepted : Bool)
  /-- The process was started again on the same data root. -/
  | restart
  /-- A hash table was rearranged, or the world of the backend has changed. -/
  | outside

/-- One step of a coordinator on a data root. A restart is one that succeeds: the constructor
does not throw. -/
inductive CoordinatorStep (env : Env) (path : Bytes) (c : Coordinator W) :
    CoordinatorEvent → Coordinator W → Prop where
  | request (r : Request) :
      CoordinatorStep env path c (.request r (r.accepted c.control)) (finalState (dispatch env r c))
  | restart {chunkSize : UInt64} {backend : IBackend W} {s : System W}
      (h : openStore env path chunkSize backend c.system = .ok () s) :
      CoordinatorStep env path c .restart { system := s }
  | outside {e : Event W} {s : System W} (h : Step env Anything c.system e s)
      (hevent : ∀ op thrown, e ≠ .call op thrown) :
      CoordinatorStep env path c .outside { c with system := s }

/-- A coordinator started for the first time on a data root without a state file. -/
def Coordinator.fresh (path : Bytes) (chunkSize : UInt64) (backend : IBackend W) (w : W) :
    Coordinator W where
  system := .fresh (coordinatorOptions path chunkSize) (.assign ⟨1⟩ backend ∅) w

/-- The coordinator after some requests. -/
def serveAll (env : Env) (c : Coordinator W) (rs : List Request) : Coordinator W :=
  rs.foldl (fun c r => finalState (dispatch env r c)) c

/-- The events of these requests. -/
def serveEvents (env : Env) : Coordinator W → List Request → List CoordinatorEvent
  | _, [] => []
  | c, r :: rest =>
      .request r (r.accepted c.control) :: serveEvents env (finalState (dispatch env r c)) rest

/-- Handling requests one after the other is a run. -/
theorem run_serve (env : Env) (path : Bytes) (c : Coordinator W) (rs : List Request) :
    Run (CoordinatorStep env path) c (serveEvents env c rs) (serveAll env c rs) := by
  induction rs generalizing c with
  | nil => exact .start
  | cons r rest ih => exact (Run.start.extend (.request r)).append (ih _)

/-- Requests are no restarts. -/
theorem restart_not_mem_serve_events (env : Env) (c : Coordinator W) (rs : List Request) :
    .restart ∉ serveEvents env c rs := by
  induction rs generalizing c with
  | nil => exact List.not_mem_nil
  | cons r rest ih => simpa [serveEvents] using ih _

end CheckpointStore
