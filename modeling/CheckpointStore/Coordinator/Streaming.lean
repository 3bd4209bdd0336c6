import CheckpointStore.Coordinator.Frames

/-!
# Reading frames from a stream

`try_read_frame` looks for one whole frame at the start of the bytes received so far. On a
stream of frames it answers `needMore` on every proper prefix of the next frame
(`try_read_incomplete`) and otherwise reads that frame and nothing behind it (`try_read_whole`). A
receiver may therefore take in the bytes in any pieces and look for frames at any time: what it
has read and what it has buffered make up what has arrived (`Receiver.Follows`), and once all
has arrived it ends with the frames and the unfinished rest (`streaming_independent_of_pieces`).
-/

namespace CheckpointStore

/-! ## The source -/

/-- What `try_read_frame` answers. -/
inductive FrameRead where
  | ok | needMore | error
  deriving DecidableEq

/-- The frame is set with `ok` only. -/
structure FrameReadResult where
  result : FrameRead
  frame : Option DecodedFrame := none
  consumed : Nat := 0
  deriving DecidableEq

/-- `try_read_frame`. -/
def tryReadFrame (buffer : Bytes) : Except Exn FrameReadResult :=
  if buffer.length < Frame.headerSize + 4 then .ok { result := .needMore }
  else do
    let magic ← readLe32 buffer 0
    if magic ≠ Frame.magic then pure { result := .error }
    else do
      let len ← readLe32 buffer 7
      if len > Frame.maxPayloadBytes then pure { result := .error }
      else
        let total := Frame.headerSize + len.toNat + 4
        if buffer.length < total then pure { result := .needMore }
        else do
          let frame ← decodeFrame (buffer.take total)
          pure { result := .ok, frame := some frame, consumed := total }

/-! ## One call -/

/-- Words are read from a prefix as they are read from the whole. -/
theorem read_le32_of_append {v rest : Bytes} {pos : Nat} (h : pos + 4 ≤ v.length) :
    readLe32 (v ++ rest) pos = readLe32 v pos := by
  unfold readLe32
  rw [if_neg (by rw [List.length_append]; omega), if_neg (by omega)]
  simp (disch := omega) only [List.getD_eq_getElem?_getD, List.getElem?_append_left]

/-- The bytes of a message. -/
def DecodedFrame.encoded (f : DecodedFrame) : Bytes := encodeFrame f.kind f.payload

/-- Frames that the decoder accepts. -/
def DecodedFrame.Bounded (f : DecodedFrame) : Prop :=
  f.payload.length ≤ Frame.maxPayloadBytes.toNat

theorem encoded_length (f : DecodedFrame) : f.encoded.length = f.payload.length + 15 :=
  encode_frame_length f.kind f.payload

/-- On bytes with the header of a bounded frame all depends on how many they are. -/
theorem try_read_of_header {f : DecodedFrame} (hf : f.Bounded) {buffer : Bytes}
    (hsize : 15 ≤ buffer.length) (hmagic : readLe32 buffer 0 = readLe32 f.encoded 0)
    (hlen : readLe32 buffer 7 = readLe32 f.encoded 7) :
    tryReadFrame buffer =
      if buffer.length < f.encoded.length then .ok { result := .needMore }
      else (decodeFrame (buffer.take f.encoded.length)).map fun frame =>
        { result := .ok, frame := some frame, consumed := f.encoded.length } := by
  have hfield : (UInt32.ofNat f.payload.length).toNat = f.payload.length :=
    UInt32.toNat_ofNat_of_lt' (Nat.lt_of_le_of_lt hf (by decide))
  have haccepted : ¬ UInt32.ofNat f.payload.length > Frame.maxPayloadBytes := by
    rw [gt_iff_lt, UInt32.not_lt, UInt32.le_iff_toNat_le, hfield]
    exact hf
  have htotal : Frame.headerSize + (UInt32.ofNat f.payload.length).toNat + 4 =
      f.encoded.length := by
    rw [hfield, encoded_length, Frame.headerSize]
    omega
  rw [show readLe32 f.encoded 0 = .ok Frame.magic from read_le32_ok_iff.mpr rfl] at hmagic
  rw [show readLe32 f.encoded 7 = .ok (UInt32.ofNat f.payload.length) from
    read_le32_ok_iff.mpr rfl] at hlen
  unfold tryReadFrame
  rw [if_neg (by rw [Frame.headerSize]; omega), hmagic, hlen]
  simp only [bind, Except.bind, ne_eq, not_true_eq_false, if_false, haccepted, htotal]
  rfl

/-- A proper prefix of a frame is not enough, wherever it ends. -/
theorem try_read_incomplete {f : DecodedFrame} (hf : f.Bounded) {buffer missing : Bytes}
    (h : buffer ++ missing = f.encoded) (hmissing : missing ≠ []) :
    tryReadFrame buffer = .ok { result := .needMore } := by
  have hlength : buffer.length < f.encoded.length := by
    rw [← h, List.length_append]
    exact Nat.lt_add_of_pos_right (List.length_pos_iff.mpr hmissing)
  by_cases hheader : buffer.length < 15
  · unfold tryReadFrame
    exact if_pos hheader
  · -- The header is complete, so it announces the length of the whole frame.
    rw [try_read_of_header hf (by omega) (by rw [← h, read_le32_of_append (by omega)])
      (by rw [← h, read_le32_of_append (by omega)]), if_pos hlength]

/-- A whole frame is read, and nothing behind it. -/
theorem try_read_whole {f : DecodedFrame} (hf : f.Bounded) (behind : Bytes) :
    tryReadFrame (f.encoded ++ behind) =
      .ok { result := .ok, frame := some f, consumed := f.encoded.length } := by
  have hlength := encoded_length f
  have hdecode : decodeFrame f.encoded = .ok f := decode_frame_ok_iff.mpr ⟨hf, rfl⟩
  rw [try_read_of_header hf (by rw [List.length_append]; omega)
    (read_le32_of_append (by omega)) (read_le32_of_append (by omega)),
    if_neg (by rw [List.length_append]; omega), List.take_left, hdecode]
  rfl

/-! ## A receiver -/

/-- The bytes that have arrived and have not been consumed, the frames read so far and the
answers of `try_read_frame` so far. -/
structure Receiver where
  buffer : Bytes := []
  frames : List DecodedFrame := []
  answers : List FrameRead := []
  deriving DecidableEq

/-- What happens to a receiver. -/
inductive Action where
  /-- More bytes arrive. -/
  | deliver (piece : Bytes)
  /-- `try_read_frame` is called on the buffer, and the consumed bytes are dropped. -/
  | read

/-- One action. -/
def Receiver.act (r : Receiver) : Action → Except Exn Receiver
  | .deliver piece => .ok { r with buffer := r.buffer ++ piece }
  | .read => do
      let res ← tryReadFrame r.buffer
      pure { buffer := r.buffer.drop res.consumed, frames := r.frames ++ res.frame.toList,
             answers := r.answers ++ [res.result] }

/-- Actions in a row. -/
def Receiver.run (r : Receiver) : List Action → Except Exn Receiver
  | [] => .ok r
  | a :: rest => do
      let r' ← r.act a
      r'.run rest

/-- The bytes that arrive during some actions. -/
def delivered : List Action → Bytes
  | [] => []
  | .deliver piece :: rest => piece ++ delivered rest
  | .read :: rest => delivered rest

theorem Receiver.run_cons {r r₁ : Receiver} {a : Action} (h : r.act a = .ok r₁)
    (rest : List Action) : r.run (a :: rest) = r₁.run rest := by
  rw [Receiver.run, h]
  rfl

/-- Actions in two parts. -/
theorem Receiver.run_append {r r' : Receiver} {first : List Action} (h : r.run first = .ok r')
    (rest : List Action) : r.run (first ++ rest) = r'.run rest := by
  induction first generalizing r with
  | nil =>
      cases h
      rfl
  | cons a first ih =>
      obtain ⟨r₁, ha, hfirst⟩ := except_bind_ok_iff.mp h
      rw [List.cons_append, Receiver.run_cons ha, ih hfirst]

/-- A stream of frames that breaks off: `frames` is what is whole in it, `tail` the beginning of a
further frame, of which `missing` has not come. -/
structure BrokenOff (frames : List DecodedFrame) (tail : Bytes) : Prop where
  bounded : ∀ f ∈ frames, f.Bounded
  unfinished : ∃ f : DecodedFrame, f.Bounded ∧ ∃ missing ≠ [], tail ++ missing = f.encoded

/-- After the first message the rest is broken off in the same place. -/
theorem BrokenOff.rest {f : DecodedFrame} {frames : List DecodedFrame} {tail : Bytes}
    (h : BrokenOff (f :: frames) tail) : BrokenOff frames tail :=
  ⟨fun g hg => h.bounded g (List.mem_cons_of_mem _ hg), h.unfinished⟩

/-- The receiver has read `frames` up to `left`: the bytes in the buffer and those still to come
are the encodings of the frames that are left and the tail, and no call has reported an error. -/
structure Receiver.Follows (r : Receiver) (frames left : List DecodedFrame)
    (tail toCome : Bytes) : Prop where
  frames : r.frames ++ left = frames
  bytes : r.buffer ++ toCome = left.flatMap DecodedFrame.encoded ++ tail
  quiet : FrameRead.error ∉ r.answers

section Streams

variable {tail toCome : Bytes} {frames left : List DecodedFrame} {r : Receiver}

theorem Receiver.act_read_more (h : tryReadFrame r.buffer = .ok { result := .needMore }) :
    r.act .read = .ok { r with answers := r.answers ++ [.needMore] } := by
  simp only [Receiver.act, h]
  show Except.ok _ = _
  simp

/-- A call finds the next frame, or it asks for more. Then there is nothing left, or some of it
has not arrived yet. -/
theorem Receiver.Follows.read (h : r.Follows frames left tail toCome)
    (hstream : BrokenOff left tail) :
    (∃ f left' r', left = f :: left' ∧ r.act .read = .ok r' ∧
      r'.answers = r.answers ++ [.ok] ∧ r'.Follows frames left' tail toCome) ∨
    (r.act .read = .ok { r with answers := r.answers ++ [.needMore] } ∧
      (left = [] ∨ toCome ≠ [])) := by
  cases left with
  | nil =>
      obtain ⟨f, hf, missing, hmissing, hunfinished⟩ := hstream.unfinished
      have hall : r.buffer ++ (toCome ++ missing) = f.encoded := by
        rw [← List.append_assoc, h.bytes]
        exact hunfinished
      have hne : toCome ++ missing ≠ [] := List.append_ne_nil_of_right_ne_nil _ hmissing
      exact .inr ⟨act_read_more (try_read_incomplete hf hall hne), .inl rfl⟩
  | cons f left' =>
      have hf := hstream.bounded f List.mem_cons_self
      have hbytes := h.bytes
      rw [List.flatMap_cons, List.append_assoc] at hbytes
      by_cases hshort : r.buffer.length < f.encoded.length
      · obtain ⟨missing, hmissing⟩ := List.prefix_of_prefix_length_le ⟨toCome, hbytes⟩
          ⟨_, rfl⟩ (Nat.le_of_lt hshort)
        have hne : missing ≠ [] := by
          rintro rfl
          rw [← hmissing, List.append_nil] at hshort
          exact Nat.lt_irrefl _ hshort
        refine .inr ⟨act_read_more (try_read_incomplete hf hmissing hne), .inr ?_⟩
        rintro rfl
        have hlength := congrArg List.length hbytes
        rw [List.length_append, List.length_append, List.length_nil] at hlength
        omega
      · obtain ⟨behind, hbehind⟩ := List.prefix_of_prefix_length_le ⟨_, rfl⟩ ⟨toCome, hbytes⟩
          (Nat.le_of_not_lt hshort)
        have hact : r.act .read = .ok { buffer := behind, frames := r.frames ++ [f],
                                        answers := r.answers ++ [.ok] } := by
          simp only [Receiver.act, ← hbehind, try_read_whole hf behind]
          show Except.ok _ = _
          simp
        refine .inl ⟨f, left', _, rfl, hact, rfl, ?_, ?_, ?_⟩
        · rw [← h.frames, List.append_assoc, List.singleton_append]
        · rw [← hbehind, List.append_assoc] at hbytes
          exact List.append_cancel_left hbytes
        · simp [h.quiet]

theorem Receiver.Follows.deliver {piece : Bytes}
    (h : r.Follows frames left tail (piece ++ toCome)) :
    Receiver.Follows { r with buffer := r.buffer ++ piece } frames left tail toCome :=
  ⟨h.frames, by rw [List.append_assoc]; exact h.bytes, h.quiet⟩

/-- Any actions that deliver bytes of the stream keep the receiver on it. -/
theorem Receiver.Follows.run {actions : List Action}
    (h : r.Follows frames left tail (delivered actions ++ toCome))
    (hstream : BrokenOff left tail) :
    ∃ left' r', r.run actions = .ok r' ∧ r'.Follows frames left' tail toCome ∧
      BrokenOff left' tail := by
  induction actions generalizing r left with
  | nil => exact ⟨left, r, rfl, h, hstream⟩
  | cons a actions ih =>
      cases a with
      | deliver piece =>
          have h' : r.Follows frames left tail (piece ++ (delivered actions ++ toCome)) := by
            rwa [← List.append_assoc]
          exact ih h'.deliver hstream
      | read =>
          obtain ⟨f, left', r', rfl, hact, -, h'⟩ | ⟨hact, -⟩ := Follows.read h hstream
          · rw [Receiver.run_cons hact]
            exact ih h' hstream.rest
          · rw [Receiver.run_cons hact]
            exact ih ⟨h.frames, h.bytes, by simpa using h.quiet⟩ hstream

/-- When everything has arrived, one call more than there are frames left reads them all. -/
theorem Receiver.Follows.drain {n : Nat} (h : r.Follows frames left tail [])
    (hstream : BrokenOff left tail) (hn : left.length < n) :
    ∃ r', r.run (List.replicate n .read) = .ok r' ∧ r'.Follows frames [] tail [] ∧
      r'.answers.getLast? = some .needMore := by
  induction n generalizing r left with
  | zero => exact absurd hn (Nat.not_lt_zero _)
  | succ n ih =>
      obtain ⟨f, left', r', rfl, hact, -, h'⟩ | ⟨hact, hleft⟩ := Follows.read h hstream
      · obtain ⟨r₁, hrun, hr₁⟩ := ih h' hstream.rest (Nat.lt_of_succ_lt_succ hn)
        exact ⟨r₁, by rw [List.replicate_succ, Receiver.run_cons hact, hrun], hr₁⟩
      · obtain rfl := hleft.resolve_right (not_not.mpr rfl)
        have h' : Receiver.Follows { r with answers := r.answers ++ [.needMore] } frames []
            tail [] :=
          ⟨h.frames, h.bytes, by simpa using h.quiet⟩
        rw [List.replicate_succ, Receiver.run_cons hact]
        cases n with
        | zero => exact ⟨_, rfl, h', by simp⟩
        | succ n => exact ih h' hstream (Nat.succ_pos n)

end Streams

/-- Frames are read from a stream in the same way however it arrives. The stream consists of
bounded frames and a proper prefix of a further one; `actions` delivers it in arbitrary pieces,
with calls of `try_read_frame` at arbitrary times. Then no call throws or reports an error, and
calling until `kNeedMore` gives the frames in order and leaves the unfinished one in the buffer:
more calls than there are frames always get there, and whoever gets `kNeedMore` after the last
piece is there. -/
theorem streaming_independent_of_pieces {frames : List DecodedFrame} {last : DecodedFrame}
    {tail missing : Bytes}
    (hframes : ∀ f ∈ frames, f.payload.length ≤ Frame.maxPayloadBytes.toNat)
    (hlast : last.payload.length ≤ Frame.maxPayloadBytes.toNat)
    (htail : tail ++ missing = encodeFrame last.kind last.payload) (hmissing : missing ≠ [])
    {actions : List Action}
    (hactions : delivered actions =
      (frames.flatMap fun f => encodeFrame f.kind f.payload) ++ tail) :
    (∀ n, frames.length < n → ∃ r,
      Receiver.run {} (actions ++ List.replicate n .read) = .ok r ∧ .error ∉ r.answers ∧
        r.answers.getLast? = some .needMore ∧ r.frames = frames ∧ r.buffer = tail) ∧
    (∃ r, Receiver.run {} (actions ++ [.read]) = .ok r ∧ .error ∉ r.answers ∧
      (r.answers.getLast? = some .needMore → r.frames = frames ∧ r.buffer = tail)) := by
  have hstream : BrokenOff frames tail := ⟨hframes, last, hlast, missing, hmissing, htail⟩
  have hstart : Receiver.Follows {} frames frames tail (delivered actions ++ []) :=
    ⟨rfl, by rw [List.append_nil, hactions]; rfl, by simp⟩
  obtain ⟨left, r, hrun, hr, hleft⟩ := hstart.run hstream
  have hdone : ∀ {r' : Receiver}, r'.Follows frames [] tail [] →
      r'.frames = frames ∧ r'.buffer = tail := by
    intro r' h
    exact ⟨by simpa using h.frames, by simpa using h.bytes⟩
  constructor
  · intro n hn
    have hlength : left.length < n := by
      have := congrArg List.length hr.frames
      rw [List.length_append] at this
      omega
    obtain ⟨r', hrun', hr', hanswer⟩ := hr.drain hleft hlength
    exact ⟨r', by rw [Receiver.run_append hrun, hrun'], hr'.quiet, hanswer, hdone hr'⟩
  · obtain ⟨f, left', r', rfl, hact, hanswers, h'⟩ | ⟨hact, hnone⟩ := hr.read hleft
    · refine ⟨r', by rw [Receiver.run_append hrun, Receiver.run_cons hact]; rfl, h'.quiet, ?_⟩
      simp [hanswers]
    · refine ⟨_, by rw [Receiver.run_append hrun, Receiver.run_cons hact]; rfl,
        by simpa using hr.quiet, fun _ => ?_⟩
      obtain rfl := hnone.resolve_right (not_not.mpr rfl)
      have hend := hdone hr
      exact hend

/-- Two frames and twelve bytes of a third, cut inside the first and inside the second frame. -/
theorem streaming_independent_of_three_pieces :
    let first := encodeFrame .publish [7]
    let second := encodeFrame .heartbeat []
    let tail := (encodeFrame .bye [1, 2]).take 12
    ∃ r, Receiver.run {} [.deliver (first.take 5), .read,
        .deliver (first.drop 5 ++ second.take 13), .read, .deliver (second.drop 13 ++ tail), .read,
        .read, .read] = .ok r ∧
      .error ∉ r.answers ∧ r.answers.getLast? = some .needMore ∧
      r.frames = [⟨.publish, [7]⟩, ⟨.heartbeat, []⟩] ∧ r.buffer = tail := by
  intro first second tail
  let last : DecodedFrame := ⟨.bye, [1, 2]⟩
  let frames : List DecodedFrame := [⟨.publish, [7]⟩, ⟨.heartbeat, []⟩]
  have htail : tail ++ (encodeFrame .bye [1, 2]).drop 12 = encodeFrame last.kind last.payload := by
    decide +kernel
  have hactions : delivered [.deliver (first.take 5), .read,
        .deliver (first.drop 5 ++ second.take 13), .read, .deliver (second.drop 13 ++ tail)] =
      (frames.flatMap fun f => encodeFrame f.kind f.payload) ++ tail := by
    decide +kernel
  exact (streaming_independent_of_pieces (by decide) (by decide) htail (by decide +kernel)
    hactions).1 3 (by decide)

end CheckpointStore
