import CheckpointStore.Coordinator.Authority
import CheckpointStore.Coordinator.Frames
import CheckpointStore.Store.Exceptions
import Mathlib.Data.UInt

/-!
# Serving connections

The loops of `main` in `coordinator.cpp`: connections are served one after the other, and on each
of them a header is read, then the rest of the frame, which is decoded, dispatched and answered.
Only the dispatch stands in a `try` block, and only `CheckpointStoreError` is caught.

If the backends throw only errors of the store, two things get out of the loop: the error of a frame
that does not decode, and the `std::bad_alloc` of a request that memory does not suffice for. The
coordinator survives exactly when neither occurs (`coordinator_survives`).
-/

namespace CheckpointStore

open Foundation Foundation.Procedure ProtoOps

variable {W α β : Type}

/-! ## The source -/

/-- What a worker sends over one connection, whether the `n`-th reply can be sent, and how the file
system answers if the `n`-th request makes the coordinator save. -/
structure Connection where
  received : Bytes := []
  sendable : Nat → Bool := fun _ => true
  answers : Nat → WriteAnswers := fun _ => {}

/-- `read_exact`: the next bytes and what follows, unless the connection ends before. -/
def readExact (len : Nat) (input : Bytes) : Option (Bytes × Bytes) :=
  if input.length < len then none else some (input.take len, input.drop len)

/-- The payload length in a header. -/
def headerLength (hdr : Bytes) : UInt32 :=
  ((hdr.getD 7 0).toUInt32 <<< 0) ||| ((hdr.getD 8 0).toUInt32 <<< 8) |||
    ((hdr.getD 9 0).toUInt32 <<< 16) ||| ((hdr.getD 10 0).toUInt32 <<< 24)

/-- The next frame and what follows. Without one the connection is closed: it has ended, or the
header announces too many bytes. -/
def nextFrame (input : Bytes) : Option (Bytes × Bytes) :=
  match readExact 11 input with
  | none => none
  | some hdr =>
      if headerLength hdr.1 > Frame.maxPayloadBytes then none
      else match readExact ((headerLength hdr.1).toNat + 4) hdr.2 with
        | none => none
        | some rest => some (hdr.1 ++ rest.1, rest.2)

/-- The `try` block and its handler. -/
def answerFrame (env : Env) (r : Request) : Proc (Coordinator W) Bytes :=
  tryCatch
    (do
      let reply ← dispatch env r
      pure (encodeFrame .ack reply))
    fun exn => match exn with
      | .error code message => pure (encodeFrame .nack (encodeNack code message))
      | .foreign => throw .foreign

/-- The request in a frame. -/
def DecodedFrame.request (frame : DecodedFrame) (answers : WriteAnswers) : Request where
  kind := frame.kind
  payload := frame.payload
  answers := answers

/-- The loop over the frames of a connection: the replies it makes. -/
def serveFrames (env : Env) (conn : Connection) :
    Nat → Nat → Bytes → Proc (Coordinator W) (List Bytes)
  | 0, _, _ => pure []
  | bound + 1, n, input =>
      match nextFrame input with
      | none => pure []
      | some next => do
          -- A frame that does not decode throws here, outside the `try` block.
          let frame ← fromExcept (decodeFrame next.1)
          let out ← answerFrame env (frame.request (conn.answers n))
          if conn.sendable n = false then pure [out]
          else do
            let replies ← serveFrames env conn bound (n + 1) next.2
            pure (out :: replies)

/-- Serve a connection until it closes. A round takes at least one byte. -/
def serveConnection (env : Env) (conn : Connection) : Proc (Coordinator W) (List Bytes) :=
  serveFrames env conn conn.received.length 0 conn.received

/-- The loop over the connections. -/
def serveConnections (env : Env) : List Connection → Proc (Coordinator W) (List (List Bytes))
  | [] => pure []
  | conn :: rest => do
      let replies ← serveConnection env conn
      let more ← serveConnections env rest
      pure (replies :: more)

/-! ## The frames of a connection -/

/-- The frames that arrive whole, up to the first whose reply cannot be sent, with what the file
system answers to each. -/
def framesFrom (conn : Connection) : Nat → Nat → Bytes → List (Bytes × WriteAnswers)
  | 0, _, _ => []
  | bound + 1, n, input =>
      match nextFrame input with
      | none => []
      | some next =>
          (next.1, conn.answers n) ::
            if conn.sendable n = false then [] else framesFrom conn bound (n + 1) next.2

/-- The frames that are read from a connection. -/
def Connection.frames (conn : Connection) : List (Bytes × WriteAnswers) :=
  framesFrom conn conn.received.length 0 conn.received

theorem read_exact_length {len : Nat} {input : Bytes} {r : Bytes × Bytes}
    (h : readExact len input = some r) : r.2.length + len = input.length := by
  unfold readExact at h
  split at h
  · cases h
  · next hlong =>
      cases h
      rw [List.length_drop]
      omega

/-- A frame takes bytes. -/
theorem next_frame_length {input : Bytes} {next : Bytes × Bytes}
    (h : nextFrame input = some next) : next.2.length < input.length := by
  unfold nextFrame at h
  split at h
  · cases h
  · next hdr hhdr =>
      split at h
      · cases h
      · split at h
        · cases h
        · next rest hrest =>
            cases h
            have hfirst := read_exact_length hhdr
            have hsecond := read_exact_length hrest
            show rest.2.length < input.length
            omega

/-- Without a frame the loop ends, whatever its bound. -/
theorem serve_frames_closed (env : Env) (conn : Connection) {bound n : Nat} {input : Bytes}
    (h : nextFrame input = none) :
    (serveFrames env conn bound n input : Proc (Coordinator W) (List Bytes)) = pure [] := by
  cases bound with
  | zero => rfl
  | succ bound => rw [serveFrames, h]

/-- Further rounds change nothing: the loop has ended. -/
theorem serve_frames_bound (env : Env) (conn : Connection) {bound bound' n : Nat} {input : Bytes}
    (h : input.length ≤ bound) (h' : input.length ≤ bound') :
    (serveFrames env conn bound n input : Proc (Coordinator W) (List Bytes)) =
      serveFrames env conn bound' n input := by
  induction bound generalizing bound' n input with
  | zero =>
      have hnone : nextFrame input = none := by
        rw [List.length_eq_zero_iff.mp (Nat.le_zero.mp h)]
        rfl
      rw [serve_frames_closed env conn hnone, serve_frames_closed env conn hnone]
  | succ bound ih =>
      cases hnext : nextFrame input with
      | none => rw [serve_frames_closed env conn hnext, serve_frames_closed env conn hnext]
      | some next =>
          have hlength := next_frame_length hnext
          obtain ⟨k, rfl⟩ : ∃ k, bound' = k + 1 := ⟨bound' - 1, by omega⟩
          have hrest := @ih k (n + 1) next.2 (by omega) (by omega)
          simp only [serveFrames, hnext, hrest]

/-! ## What requests throw -/

/-- On a coordinator whose store has the given backends, the procedure throws only exceptions of the
class `E` and leaves the same backends. -/
def Composed (backends : UnorderedMap StorageBackendId (IBackend W)) (E : Exn → Prop)
    (m : Proc (Coordinator W) α) : Prop :=
  Ends (fun c => c.system.store.backends = backends) E m

/-- A reader that refuses its input with errors of the store. -/
def OwnReader (read : Proc BinReader α) : Prop :=
  Ends (fun _ => True) (fun e => e.own = true) read

theorem ends_word (width : Nat) : OwnReader (BinReader.word width) := by
  intro r _
  refine post_of_runs (fun _ _ _ => trivial) fun e r' hrun => ⟨?_, trivial⟩
  unfold BinReader.word BinReader.getLe at hrun
  split at hrun
  · cases hrun
  · next hget =>
      split at hget
      · cases hget
        cases hrun
        rfl
      · cases hget

theorem ends_bytes_fixed (n : Nat) : OwnReader (BinReader.bytesFixed n) := by
  intro r _
  refine post_of_runs (fun _ _ _ => trivial) fun e r' hrun => ⟨?_, trivial⟩
  unfold BinReader.bytesFixed at hrun
  split at hrun
  · cases hrun
    rfl
  · cases hrun

theorem ends_read_authority : OwnReader readAuthority :=
  ends_bind (ends_word 8) fun _ => ends_bind (ends_word 8) fun _ =>
    ends_bind (ends_word 8) fun _ => ends_pure _

theorem ends_read_publish : OwnReader readPublish :=
  ends_bind ends_read_authority fun _ => ends_bind (ends_word 8) fun _ =>
    ends_bind (ends_bind (ends_bytes_fixed 1) fun _ => ends_pure _) fun _ =>
    ends_bind (ends_word 8) fun _ => ends_pure _

theorem ends_read_restore : OwnReader readRestore :=
  ends_bind ends_read_authority fun _ => ends_bind (ends_word 8) fun _ => ends_pure _

theorem ends_read_register : OwnReader readRegister :=
  ends_bind (ends_word 8) fun _ =>
    ends_bind (ends_bind (ends_word 8) fun _ => ends_bytes_fixed _) fun _ => ends_pure _

theorem ends_read_retain : OwnReader readRetain :=
  ends_bind (ends_word 8) fun _ => ends_bind (ends_word 8) fun _ => ends_pure _

/-- Decoding throws errors of the library only. -/
theorem own_failures_decode {read : Proc BinReader β} (hread : OwnReader read)
    (payload : Bytes) : OwnFailures (decode read payload) := by
  intro e he
  unfold decode at he
  split at he
  · cases he
  · next hrun =>
      cases he
      exact ((hread _ trivial).of_error hrun).1

section Composed

variable {backends : UnorderedMap StorageBackendId (IBackend W)} {E : Exn → Prop}

/-- A call of the store throws what it throws there. -/
theorem composed_on_store {m : Proc (System W) α} (h : Contained backends E m) :
    Composed backends E (onStore m) := by
  intro c hc
  rw [post_on_store]
  exact h c.system hc

/-- A reply made from what the store returns. -/
theorem composed_reply {m : Proc (System W) β} (h : Contained backends E m) (reply : β → Bytes) :
    Composed backends E (onStore m >>= fun b => pure (reply b)) :=
  ends_bind (composed_on_store h) fun _ => ends_pure _

theorem composed_modify_control (f : Control → Control) :
    Composed backends E (modifyControl f : Proc (Coordinator W) Unit) :=
  ends_modify fun _ hc => hc

theorem composed_publish_authority_ok (a : AuthorityEnvelope) :
    Composed backends E (publishAuthorityOk a : Proc (Coordinator W) Bool) :=
  ends_get_bind fun _ _ => ends_ite
    (fun _ => ends_bind (composed_modify_control _) fun _ => ends_pure _) fun _ => ends_pure _

theorem composed_restore_authority_ok (a : AuthorityEnvelope) :
    Composed backends E (restoreAuthorityOk a : Proc (Coordinator W) Bool) :=
  have hcount : Composed backends E (do modifyControl Control.countStale; pure false :
      Proc (Coordinator W) Bool) :=
    ends_bind (composed_modify_control _) fun _ => ends_pure _
  ends_get_bind fun _ _ => ends_ite (fun _ => hcount) fun _ => ends_ite (fun _ => hcount)
    fun _ => ends_pure _

theorem composed_take_over (boot : UInt64) :
    Composed backends E (takeOver boot : Proc (Coordinator W) Unit) :=
  ends_get_bind fun _ _ => ends_ite (fun _ => ends_bind (composed_modify_control _) fun _ =>
    ends_bind (composed_on_store (contained_set_authority_boot _)) fun _ =>
    composed_on_store contained_reset_authority) fun _ => ends_pure _

variable (hE : ∀ {e : Exn}, e.own = true → E e)

include hE

/-- A payload is decoded, or refused with an error of the store. -/
theorem composed_decoded {read : Proc BinReader β} {payload : Bytes}
    {f : β → Proc (Coordinator W) α} (hread : OwnReader read)
    (hf : ∀ b, decode read payload = .ok b → Composed backends E (f b)) :
    Composed backends E (fromExcept (decode read payload) >>= f) := by
  intro c hc
  rw [post_bind, post_from_except]
  exact ⟨fun b hb => hf b hb c hc, fun e he => ⟨hE (own_failures_decode hread payload e he), hc⟩⟩

/-- A check adds its own error. -/
theorem composed_guarded {check : Proc (Coordinator W) Bool} {message : String}
    {serve : Proc (Coordinator W) Bytes} (hcheck : Composed backends E check)
    (hown : (Exn.error .staleAuthority message).own = true)
    (hserve : Composed backends E serve) :
    Composed backends E (guarded check message serve) :=
  ends_bind hcheck fun _ => ends_ite (fun _ => ends_throw (hE hown)) fun _ => hserve

variable (hbackends : AllThrow E backends)

include hbackends

/-- What memory has room for is published, or the publication fails with an error of the store or of
the backend. -/
theorem composed_serve_data (env : Env) (req : PublishRequest) (data : Bytes) :
    Composed backends E (do
      let d ← onStore (makeFullDescriptor env ⟨req.family⟩ ⟨1⟩ (byteSize data) .local)
      let pub ← onStore (publish env d data)
      pure (encodePublishReply pub.descriptor.id.value (UInt64.ofNat pub.manifest.chunks.length)
        pub.dedupHits pub.dedupMisses) : Proc (Coordinator W) Bytes) :=
  ends_bind (composed_on_store (contained_make_full_descriptor hE env _ _ _ _)) fun d =>
    ends_bind (composed_on_store (contained_publish hE hbackends env d _)) fun _ => ends_pure _

/-- A publication throws that, or finds no memory. -/
theorem composed_serve_publish (hmemory : E .foreign) (env : Env) (req : PublishRequest) :
    Composed backends E (servePublish env req : Proc (Coordinator W) Bytes) :=
  ends_get_bind fun _ _ => ends_ite (fun _ => ends_throw hmemory)
    fun _ => composed_serve_data hE hbackends env req _

/-- A request is served, or fails with an exception of the class; requests to publish and to restore
also fail when memory does not suffice. -/
theorem composed_dispatch (env : Env) (r : Request)
    (hmemory : r.kind = .publish ∨ r.kind = .restore → E .foreign) :
    Composed backends E (dispatch env r : Proc (Coordinator W) Bytes) := by
  unfold dispatch
  cases hkind : r.kind with
  | registerBackend =>
      exact composed_decoded hE ends_read_register fun _ _ =>
        ends_bind (composed_modify_control _) fun _ => ends_bind (composed_take_over _) fun _ =>
        ends_get_bind fun _ _ => ends_pure _
  | createFamily =>
      exact composed_decoded hE (ends_word 8) fun _ _ => composed_reply contained_create_family _
  | publish =>
      exact composed_decoded hE ends_read_publish fun req _ =>
        composed_guarded hE (composed_publish_authority_ok _) rfl
          (composed_serve_publish hE hbackends (hmemory (.inl hkind)) env req)
  | verify =>
      exact composed_decoded hE (ends_word 8) fun _ _ =>
        composed_reply (contained_verify_checkpoint hE hbackends env _) _
  | restore =>
      exact composed_decoded hE ends_read_restore fun _ _ =>
        composed_guarded hE (composed_restore_authority_ok _) rfl
          (composed_reply (contained_restore hE hbackends (hmemory (.inr hkind)) env _ _) _)
  | retire =>
      exact composed_decoded hE ends_read_restore fun _ _ =>
        composed_guarded hE (composed_publish_authority_ok _) rfl
          (composed_reply (contained_retire hE env _) _)
  | gcRun =>
      exact composed_decoded hE ends_read_restore fun _ _ =>
        composed_guarded hE (composed_publish_authority_ok _) rfl
          (ends_bind (composed_on_store (contained_gc_plan env)) fun _ =>
            composed_reply (contained_gc_run hbackends env) _)
  | retain =>
      exact composed_decoded hE ends_read_retain fun _ _ =>
        composed_reply (contained_set_retention_policy _) _
  | save => exact composed_reply (contained_save_state hE env _) _
  | advanceEpoch =>
      exact ends_bind (composed_modify_control _) fun _ => ends_get_bind fun _ _ => ends_pure _
  | heartbeat | status | ack | nack | bye => exact ends_throw (hE rfl)

end Composed

/-! ## Requests that memory does not suffice for -/

/-- An accepted publication that memory has no room for, or an accepted restore that it does not
suffice for. -/
def Request.Exhausts (env : Env) (r : Request) (c : Coordinator W) : Prop :=
  match r.kind with
  | .publish => ∃ req, decode readPublish r.payload = .ok req ∧
      c.control.mayWrite req.auth = true ∧ env.memory c.system.ticks < req.size.toNat
  | .restore => ∃ req, decode readRestore r.payload = .ok req ∧
      c.control.mayRestore req.1 = true ∧ TooLarge env ⟨1⟩ ⟨req.2⟩ c.system
  | _ => False

/-- What is served after a check throws what it throws, unless the check refuses. -/
theorem guarded_foreign_iff {check : Proc (Coordinator W) Bool} {message : String}
    {serve : Proc (Coordinator W) Bytes} {ok : Bool} {c c' : Coordinator W}
    (hcheck : check c = .ok ok c') :
    thrown (guarded check message serve c) = some .foreign ↔
      ok = true ∧ thrown (serve c') = some .foreign := by
  rw [guarded, bind_of_ok hcheck]
  cases ok with
  | false => exact iff_of_false (fun h => by cases h) fun h => by cases h.1
  | true => exact (and_iff_right rfl).symm

/-- A payload that does not decode is refused with an error of the store. -/
theorem decoded_foreign_iff {read : Proc BinReader β} {payload : Bytes}
    {f : β → Proc (Coordinator W) α} {c : Coordinator W} (hread : OwnReader read) :
    thrown ((fromExcept (decode read payload) >>= f) c) = some .foreign ↔
      ∃ b, decode read payload = .ok b ∧ thrown (f b c) = some .foreign := by
  have hown := own_failures_decode hread payload
  cases hdecode : decode read payload with
  | ok b =>
      refine ⟨fun h => ⟨b, rfl, h⟩, ?_⟩
      rintro ⟨b', hb', h⟩
      cases hb'
      exact h
  | error e =>
      refine iff_of_false (fun h => ?_) fun h => by simp at h
      exact ne_foreign_of_own (hown e hdecode) (Option.some.inj h)

/-- A publication runs out of memory exactly when the data has no room. -/
theorem serve_publish_foreign_iff {env : Env} {req : PublishRequest} {c : Coordinator W}
    (hbackends : AllThrow (· ≠ .foreign) c.system.store.backends) :
    thrown (servePublish env req c) = some .foreign ↔
      env.memory c.system.ticks < req.size.toNat := by
  unfold servePublish
  rw [bind_of_ok (show (get : Proc (Coordinator W) _) c = .ok c c from rfl)]
  split
  · next hlarge => exact iff_of_true rfl hlarge
  · next hfits =>
      refine iff_of_false (fun h => ?_) hfits
      exact ((composed_serve_data ne_foreign_of_own hbackends env req _ c rfl).of_error
        (eq_error_of_thrown h)).1 rfl

/-- A restore ends the process exactly if the checkpoint is too large. -/
theorem serve_restore_foreign_iff {env : Env} {id : UInt64} {c : Coordinator W}
    (hbackends : AllThrow (· ≠ .foreign) c.system.store.backends) :
    thrown (serveRestore env id c) = some .foreign ↔ TooLarge env ⟨1⟩ ⟨id⟩ c.system := by
  rw [← restore_foreign_iff hbackends]
  cases hrun : restore env ⟨1⟩ ⟨id⟩ c.system with
  | ok rc s =>
      have hcall : onStore (restore env ⟨1⟩ ⟨id⟩) c = .ok rc { c with system := s } := by
        simp only [onStore, zoom, hrun]
      rw [serveRestore, bind_of_ok hcall]
      exact iff_of_false (fun h => by cases h) fun h => by cases h
  | error e s =>
      have hcall : onStore (restore env ⟨1⟩ ⟨id⟩) c = .error e { c with system := s } := by
        simp only [onStore, zoom, hrun]
      rw [serveRestore, bind_of_error hcall]
      exact Iff.rfl

/-- For backends that throw errors of the store only, a request ends with another exception exactly
when memory does not suffice for it. -/
theorem dispatch_foreign_iff (env : Env) (r : Request) {c : Coordinator W}
    (hbackends : AllThrow (· ≠ .foreign) c.system.store.backends) :
    thrown (dispatch env r c) = some .foreign ↔ r.Exhausts env c := by
  by_cases hpublish : r.kind = .publish
  · simp only [dispatch, Request.Exhausts, hpublish, handlePublish]
    rw [decoded_foreign_iff ends_read_publish]
    refine exists_congr fun req => and_congr_right fun _ => ?_
    rw [guarded_foreign_iff (publish_authority_ok_run req.auth c)]
    exact and_congr_right fun _ => serve_publish_foreign_iff hbackends
  by_cases hrestore : r.kind = .restore
  · simp only [dispatch, Request.Exhausts, hrestore, handleRestore]
    rw [decoded_foreign_iff ends_read_restore]
    refine exists_congr fun req => and_congr_right fun _ => ?_
    rw [guarded_foreign_iff (restore_authority_ok_run req.1 c)]
    exact and_congr_right fun _ => serve_restore_foreign_iff hbackends
  refine iff_of_false (fun h => ?_) ?_
  · refine ((composed_dispatch ne_foreign_of_own hbackends env r ?_ c rfl).of_error
      (eq_error_of_thrown h)).1 rfl
    rintro (hkind | hkind)
    · exact absurd hkind hpublish
    · exact absurd hkind hrestore
  · unfold Request.Exhausts
    split
    · next hkind => exact absurd hkind hpublish
    · next hkind => exact absurd hkind hrestore
    · exact id

/-! ## The loops -/

/-- The bytes are an Ack or a Nack frame. -/
def IsReply (out : Bytes) : Prop :=
  ∃ payload, out = encodeFrame .ack payload ∨ out = encodeFrame .nack payload

/-- A request is answered, unless memory does not suffice for it. -/
theorem post_answer_frame (env : Env) (r : Request) {c : Coordinator W}
    (hbackends : AllThrow (· ≠ .foreign) c.system.store.backends) :
    Post (answerFrame env r) c
      (fun out c' => IsReply out ∧ c'.system.store.backends = c.system.store.backends ∧
        ¬r.Exhausts env c)
      (fun e _ => e = .foreign ∧ r.Exhausts env c) := by
  have hforeign := dispatch_foreign_iff env r hbackends
  have hsame := composed_dispatch (fun _ => trivial) (all_throw_anything _) env r
    (fun _ => trivial) c rfl
  simp only [answerFrame, post_try_catch, post_bind, post_pure]
  refine post_of_runs (fun reply c' hrun => ?_) fun e c' hrun => ?_
  · rw [hrun] at hforeign
    exact ⟨⟨reply, .inl rfl⟩, hsame.of_ok hrun, fun h => by cases hforeign.mpr h⟩
  · rw [hrun] at hforeign
    cases e with
    | error code message =>
        exact ⟨⟨encodeNack code message, .inr rfl⟩, (hsame.of_error hrun).2,
          fun h => by cases hforeign.mpr h⟩
    | foreign => exact ⟨rfl, hforeign.mp rfl⟩

/-- The coordinator after it has answered frames that decode. -/
def afterFrames (env : Env) (c : Coordinator W) : List (Bytes × WriteAnswers) → Coordinator W
  | [] => c
  | f :: rest => match decodeFrame f.1 with
    | .ok frame => afterFrames env (finalState (answerFrame env (frame.request f.2) c)) rest
    | .error _ => c

/-- Every frame decodes, and memory suffices for its request when it is served. -/
def Bearable (env : Env) (c : Coordinator W) : List (Bytes × WriteAnswers) → Prop
  | [] => True
  | f :: rest => ∃ frame, decodeFrame f.1 = .ok frame ∧ ¬(frame.request f.2).Exhausts env c ∧
      Bearable env (finalState (answerFrame env (frame.request f.2) c)) rest

/-- Frames in two parts. -/
theorem bearable_append (env : Env) (c : Coordinator W) (fs gs : List (Bytes × WriteAnswers)) :
    Bearable env c (fs ++ gs) ↔ Bearable env c fs ∧ Bearable env (afterFrames env c fs) gs := by
  induction fs generalizing c with
  | nil => exact (and_iff_right trivial).symm
  | cons f fs ih =>
      simp only [List.cons_append, Bearable, afterFrames]
      cases decodeFrame f.1 with
      | error e => simp
      | ok frame => simp [ih, and_assoc]

/-- A frame that decodes to a request which needs at most `bound` bytes in whatever state it is
served. -/
def modestFrame (bound : Nat) (f : Bytes × WriteAnswers) : Bool :=
  match decodeFrame f.1 with
  | .error _ => false
  | .ok frame => match frame.kind with
    | .restore => false
    | .publish => match decode readPublish frame.payload with
      | .ok req => req.size.toNat ≤ bound
      | .error _ => true
    | _ => true

/-- Modest frames can be borne. -/
theorem bearable_of_modest {env : Env} {bound : Nat} (hbound : ∀ n, bound ≤ env.memory n)
    {frames : List (Bytes × WriteAnswers)} (hframes : ∀ f ∈ frames, modestFrame bound f = true)
    {c : Coordinator W} : Bearable env c frames := by
  induction frames generalizing c with
  | nil => trivial
  | cons f rest ih =>
      have hf := hframes f (by simp)
      unfold modestFrame at hf
      cases hframe : decodeFrame f.1 with
      | error e => simp [hframe] at hf
      | ok frame =>
          refine ⟨frame, hframe, fun hlarge => ?_, ih fun g hg => hframes g (by simp [hg])⟩
          have hkind : (frame.request f.2).kind = frame.kind := rfl
          simp only [hframe] at hf
          unfold Request.Exhausts at hlarge
          rw [hkind] at hlarge
          split at hlarge
          · next hpublish =>
              obtain ⟨req, hreq, _, hlarge⟩ := hlarge
              have hread : decode readPublish frame.payload = .ok req := hreq
              have := hbound c.system.ticks
              simp only [hpublish, hread, decide_eq_true_eq] at hf
              omega
          · next hrestore => simp [hrestore] at hf
          · exact hlarge

/-- There is a reply to each frame. -/
def Answered (frames : List (Bytes × WriteAnswers)) (replies : List Bytes) : Prop :=
  List.Forall₂ (fun _ out => IsReply out) frames replies

/-- The loop answers one frame after the other, up to the first that does not decode or that memory
does not suffice for. -/
theorem post_serve_frames (env : Env) (conn : Connection) {bound n : Nat} {input : Bytes}
    {c : Coordinator W} (hbackends : AllThrow (· ≠ .foreign) c.system.store.backends) :
    Post (serveFrames env conn bound n input) c
      (fun replies c' => c'.system.store.backends = c.system.store.backends ∧
        Bearable env c (framesFrom conn bound n input) ∧
        c' = afterFrames env c (framesFrom conn bound n input) ∧
        Answered (framesFrom conn bound n input) replies)
      (fun e _ => ¬Bearable env c (framesFrom conn bound n input) ∧
        (e = .foreign ∨ ∃ f ∈ framesFrom conn bound n input, decodeFrame f.1 = .error e)) := by
  induction bound generalizing n input c with
  | zero => exact ⟨rfl, trivial, rfl, .nil⟩
  | succ bound ih =>
      cases hnext : nextFrame input with
      | none =>
          rw [serve_frames_closed env conn hnext, framesFrom, hnext]
          exact ⟨rfl, trivial, rfl, .nil⟩
      | some next =>
          simp only [serveFrames, framesFrom, hnext]
          rw [post_bind, post_from_except]
          refine ⟨fun frame hframe => ?_, fun e he =>
            ⟨?_, .inr ⟨(next.1, conn.answers n), by simp, he⟩⟩⟩
          · have hbear : ∀ rest, Bearable env c ((next.1, conn.answers n) :: rest) ↔
                ¬(frame.request (conn.answers n)).Exhausts env c ∧ Bearable env
                  (finalState (answerFrame env (frame.request (conn.answers n)) c)) rest := by
              intro rest
              simp [Bearable, hframe]
            have hafter : ∀ rest, afterFrames env c ((next.1, conn.answers n) :: rest) =
                afterFrames env
                  (finalState (answerFrame env (frame.request (conn.answers n)) c)) rest := by
              intro rest
              simp [afterFrames, hframe]
            rw [post_bind]
            refine post_of_runs (fun out c₁ hrun => ?_) fun e c₁ hrun => ?_
            · obtain ⟨hreply, hsame, hfits⟩ :=
                (post_answer_frame env (frame.request (conn.answers n)) hbackends).of_ok hrun
              simp only [hrun, final_state_ok] at hbear hafter
              split
              · exact ⟨hsame, (hbear _).mpr ⟨hfits, trivial⟩, (hafter []).symm, .cons hreply .nil⟩
              · -- The reply was sent, so the rest of the input is served as well.
                rw [post_bind]
                refine (ih (hsame ▸ hbackends)).mono (fun replies c' hc' => ?_) fun e c' he => ?_
                · obtain ⟨hsame', hrest, rfl, hreplies⟩ := hc'
                  exact ⟨hsame'.trans hsame, (hbear _).mpr ⟨hfits, hrest⟩, (hafter _).symm,
                    .cons hreply hreplies⟩
                · refine ⟨fun h => he.1 ((hbear _).mp h).2, he.2.imp_right ?_⟩
                  rintro ⟨f, hf, hbad⟩
                  exact ⟨f, by simp [hf], hbad⟩
            · obtain ⟨rfl, hlarge⟩ :=
                (post_answer_frame env (frame.request (conn.answers n)) hbackends).of_error hrun
              exact ⟨fun h => ((hbear _).mp h).1 hlarge, .inl rfl⟩
          · rintro ⟨frame, hframe, _⟩
            rw [he] at hframe
            cases hframe

/-- The same for connections one after the other. -/
theorem post_serve_connections (env : Env) (conns : List Connection) {c : Coordinator W}
    (hbackends : AllThrow (· ≠ .foreign) c.system.store.backends) :
    Post (serveConnections env conns) c
      (fun replies _ => Bearable env c (conns.flatMap Connection.frames) ∧
        List.Forall₂ (fun conn outs => Answered conn.frames outs) conns replies)
      (fun e _ => ¬Bearable env c (conns.flatMap Connection.frames) ∧
        (e = .foreign ∨ ∃ conn ∈ conns, ∃ f ∈ conn.frames, decodeFrame f.1 = .error e)) := by
  induction conns generalizing c with
  | nil => exact ⟨trivial, .nil⟩
  | cons conn rest ih =>
      simp only [serveConnections, post_bind, post_pure, List.flatMap_cons, bearable_append]
      refine (post_serve_frames env conn hbackends).mono (fun replies c' hc' => ?_)
        fun e _ he => ⟨fun h => he.1 h.1, he.2.imp_right fun h => ⟨conn, by simp, h⟩⟩
      obtain ⟨hsame, hbearable, rfl, hanswered⟩ := hc'
      refine (ih (hsame ▸ hbackends)).mono
        (fun more _ hmore => ⟨⟨hbearable, hmore.1⟩, .cons hanswered hmore.2⟩)
        fun e _ he => ⟨fun h => he.1 h.2, he.2.imp_right ?_⟩
      rintro ⟨conn', hin, hbad⟩
      exact ⟨conn', by simp [hin], hbad⟩

/-- Memory throws errors of the library only. -/
theorem memory_backend_throws (H : StreamHash) :
    (memoryBackend H).Throws (fun e => e.own = true) := by
  have hfault : Ends (fun _ => True) (fun e => e.own = true) MemoryWorld.fault := by
    intro w _
    unfold Post MemoryWorld.fault
    rcases w with ⟨objects, staged, _ | ⟨_ | _, rest⟩⟩
    · trivial
    · trivial
    · exact ⟨rfl, trivial⟩
  have hown : ∀ {α : Type} {m : Proc MemoryWorld α} {w : MemoryWorld} {e : Exn},
      Ends (fun _ => True) (fun e => e.own = true) m → thrown (m w) = some e → e.own = true :=
    fun hm he => ((hm _ trivial).of_error (eq_error_of_thrown he)).1
  refine ⟨hown ?_, hown ?_, hown ?_, hown ?_, hown ?_, hown ?_, hown ?_⟩
  · exact ends_bind hfault fun _ => ends_modify fun _ _ => trivial
  · refine ends_bind hfault fun _ => ends_get_bind fun w _ => ?_
    cases w.staged.find _ with
    | none => exact ends_throw rfl
    | some data => exact fun _ _ => trivial
  · refine ends_bind hfault fun _ => ends_get_bind fun w _ => ?_
    cases w.objects.find _ with
    | none => exact ends_throw rfl
    | some data => exact ends_pure _
  · exact ends_get_bind fun _ _ => ends_pure _
  · exact ends_get_bind fun _ _ => ends_bind (fun _ _ => trivial) fun _ => ends_pure _
  · refine ends_get_bind fun w _ => ?_
    cases w.objects.find _ with
    | none => exact ends_pure _
    | some data => exact ends_pure _
  · exact ends_pure _

theorem sample_coordinator_throws (H : StreamHash) :
    AllThrow (fun e => e.own = true) (sampleCoordinator H).system.store.backends := by
  intro id b hfind
  have hfound : (UnorderedMap.assign ⟨1⟩ (memoryBackend H) ∅).find id = some b := hfind
  rw [UnorderedMap.find_assign] at hfound
  split at hfound
  · cases hfound
    exact memory_backend_throws H
  · cases hfound

/-- Boot 7 registers and publishes a checkpoint of the given size. -/
def publishingWorker (size : UInt64) : Connection where
  received := encodeFrame .registerBackend (encodeRegister 7 []) ++
    encodeFrame .createFamily (encodeU64 0) ++
    encodeFrame .publish (encodePublish { boot := 7, epoch := 1 } 1 65 size)

end CheckpointStore
