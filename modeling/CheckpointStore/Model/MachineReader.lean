import CheckpointStore.Foundation.Programs
import CheckpointStore.Model.BinFormat

/-!
# The binary reader on 64-bit positions

`BinReader` of `binformat.cpp` with the arithmetic of `std::size_t`: the position is a 64-bit value,
`get_le` adds to it and `require` subtracts it, both with wrap-around. A byte or a subspan that is
not inside the view is no exception but undefined, so the methods are attempts.

`MachineReader` simulates `BinReader` (`exec_refines_read`) on the positions inside a view that
leaves room for one word below `2 ^ 64`. What a call consumes is stated on `BinReader`
(`read_confined`). `exec_ends` puts the two together for one call, and `exec_all_ends` follows for
every sequence of calls.
-/

namespace CheckpointStore

open Foundation.Procedure

/-! ## The source -/

/-- What both bounds checks throw. -/
def underflow : Exn := .error .truncated "binary reader underflow"

/-- The members of `BinReader`. -/
structure MachineReader where
  view : Bytes
  pos : UInt64 := 0

namespace MachineReader

/-- A method of the reader; it stops at an access outside the view. -/
abbrev Method (α : Type) := Attempt Exn MachineReader α

/-- The size of the view. -/
def size : Method UInt64 := fun r => some (.ok (byteSize r.view) r)

/-- The position. -/
def position : Method UInt64 := fun r => some (.ok r.pos r)

/-- The number of bytes not yet read, in 64 bits. -/
def remaining (r : MachineReader) : UInt64 := byteSize r.view - r.pos

/-- `view[i]`. -/
def byteAt (i : UInt64) : Method UInt8 := fun r =>
  match r.view[i.toNat]? with
  | none => none
  | some b => some (.ok b r)

/-- `view.subspan(pos, n)`. -/
def subspan (pos n : UInt64) : Method Bytes := fun r =>
  if pos.toNat + n.toNat ≤ r.view.length then
    some (.ok ((r.view.drop pos.toNat).take n.toNat) r)
  else none

/-- `pos_ += n`. -/
def advance (n : UInt64) : Method Unit := fun r => some (.ok () { r with pos := r.pos + n })

/-- A little-endian number at a position. -/
def getLe (pos : UInt64) (width : Nat) : Method UInt64 := do
  let size ← size
  if size < pos + UInt64.ofNat width then Attempt.throw underflow
  else (List.range width).foldlM (fun v i => do
    let b ← byteAt (pos + UInt64.ofNat i)
    pure (v ||| (b.toUInt64 <<< UInt64.ofNat (8 * i)))) 0

/-- Refuse if fewer bytes are left. -/
def require (n : UInt64) : Method Unit := do
  let size ← size
  let pos ← position
  if size - pos < n then Attempt.throw underflow else pure ()

/-- Read a byte. -/
def u8 : Method UInt8 := do
  require 1
  let pos ← position
  let b ← byteAt pos
  advance 1
  pure b

/-- The common lines of `u16`, `u32` and `u64`. -/
def word (width : Nat) : Method UInt64 := do
  let pos ← position
  let v ← getLe pos width
  advance (UInt64.ofNat width)
  pure v

/-- Read a 16-bit number. -/
def u16 : Method UInt16 := do
  let v ← word 2
  pure v.toUInt16

/-- Read a 32-bit number. -/
def u32 : Method UInt32 := do
  let v ← word 4
  pure v.toUInt32

/-- Read a 64-bit number. -/
def u64 : Method UInt64 := word 8

/-- Read a signed number. -/
def i64 : Method Int64 := do
  let v ← u64
  pure v.toInt64

/-- Read a flag. -/
def boolean : Method Bool := do
  let v ← u8
  pure (v != 0)

/-- Read a given number of bytes. -/
def bytesFixed (n : UInt64) : Method Bytes := do
  require n
  let pos ← position
  let out ← subspan pos n
  advance n
  pure out

/-- Read a length and as many bytes. -/
def bytes : Method Bytes := do
  let n ← u64
  bytesFixed n

/-- Read a string. -/
def string : Method Bytes := bytes

/-- Read a digest. -/
def sha256 : Method Digest := do
  let b ← bytesFixed 32
  pure (BinReader.digestOf b)

/-- Read a time. -/
def timePoint (period : ClockPeriod) : Method TimePoint := do
  let ms ← i64
  pure (ms * period.perMillisecond)

/-- Pass over some bytes. -/
def skip (n : UInt64) : Method Unit := do
  require n
  advance n

end MachineReader

/-! ## Calls -/

/-- The methods of the reader, with their arguments. -/
inductive ReaderCall where
  | u8 | u16 | u32 | u64 | i64 | boolean | bytes | string
  | bytesFixed (n : UInt64) | sha256 | timePoint (period : ClockPeriod) | skip (n : UInt64)

namespace ReaderCall

/-- What a call returns. -/
def Result : ReaderCall → Type
  | .u8 => UInt8
  | .u16 => UInt16
  | .u32 => UInt32
  | .u64 => UInt64
  | .i64 => Int64
  | .boolean => Bool
  | .bytes | .string | .bytesFixed _ => Bytes
  | .sha256 => Digest
  | .timePoint _ => TimePoint
  | .skip _ => Unit

/-- Make a call. -/
def exec : (c : ReaderCall) → MachineReader.Method c.Result
  | .u8 => MachineReader.u8
  | .u16 => MachineReader.u16
  | .u32 => MachineReader.u32
  | .u64 => MachineReader.u64
  | .i64 => MachineReader.i64
  | .boolean => MachineReader.boolean
  | .bytes => MachineReader.bytes
  | .string => MachineReader.string
  | .bytesFixed n => MachineReader.bytesFixed n
  | .sha256 => MachineReader.sha256
  | .timePoint period => MachineReader.timePoint period
  | .skip n => MachineReader.skip n

/-- The same method over unbounded positions. -/
def read : (c : ReaderCall) → Proc BinReader c.Result
  | .u8 => BinReader.u8
  | .u16 => BinReader.u16
  | .u32 => BinReader.u32
  | .u64 => BinReader.u64
  | .i64 => BinReader.i64
  | .boolean => BinReader.boolean
  | .bytes => BinReader.bytes
  | .string => BinReader.string
  | .bytesFixed n => BinReader.bytesFixed n.toNat
  | .sha256 => BinReader.sha256
  | .timePoint period => BinReader.timePoint period
  | .skip n => BinReader.skip n.toNat

/-- How many bytes a call has validated when it throws after it has moved. -/
def validated : ReaderCall → Nat
  | .bytes | .string => 8
  | _ => 0

end ReaderCall

/-! ## 64-bit and unbounded positions -/

namespace MachineReader

/-- The reader with its position as a number. -/
def unbounded (r : MachineReader) : BinReader := { view := r.view, pos := r.pos.toNat }

/-- The position is inside the view, and the view ends at least a word below `2 ^ 64`. -/
structure InView (r : MachineReader) : Prop where
  pos_le : r.pos.toNat ≤ r.view.length
  room : r.view.length + 8 < 2 ^ 64

/-- A method simulates its unbounded counterpart, and throws nothing but the underflow. -/
abbrev Refines {α : Type} (m' : Method α) (m : Proc BinReader α) : Prop :=
  Simulates unbounded InView (· = underflow) m' m

variable {r : MachineReader}

theorem InView.size_to_nat (h : r.InView) : (byteSize r.view).toNat = r.view.length :=
  byte_size_to_nat (Nat.lt_of_le_of_lt (Nat.le_add_right _ 8) h.room)

/-- Inside its view a reader counts what is left exactly. -/
theorem InView.remaining_to_nat (h : r.InView) :
    r.remaining.toNat = r.view.length - r.pos.toNat := by
  rw [remaining, UInt64.toNat_sub_of_le, h.size_to_nat]
  rw [UInt64.le_iff_toNat_le, h.size_to_nat]
  exact h.pos_le

theorem InView.of_view (h : r.InView) {r' : MachineReader} (hview : r'.view = r.view)
    (hpos : r'.pos.toNat ≤ r.view.length) : r'.InView :=
  ⟨by rw [hview]; exact hpos, by rw [hview]; exact h.room⟩

/-- Adding what is still inside the view does not wrap around. -/
theorem InView.add_to_nat (h : r.InView) {n : UInt64}
    (hn : r.pos.toNat + n.toNat ≤ r.view.length + 8) :
    (r.pos + n).toNat = r.pos.toNat + n.toNat := by
  rw [UInt64.toNat_add, Nat.mod_eq_of_lt (Nat.lt_of_le_of_lt hn h.room)]

/-- Moving on inside the view. -/
theorem InView.advance (h : r.InView) {n : UInt64} (hn : r.pos.toNat + n.toNat ≤ r.view.length) :
    InView { r with pos := r.pos + n } ∧
      unbounded { r with pos := r.pos + n } =
        { view := r.view, pos := r.pos.toNat + n.toNat } := by
  have hpos := h.add_to_nat (Nat.le_trans hn (Nat.le_add_right _ 8))
  exact ⟨⟨by rw [hpos]; exact hn, h.room⟩, by rw [unbounded, hpos]⟩

/-- The check compares numbers that have not wrapped. -/
theorem require_eq (h : r.InView) (n : UInt64) :
    require n r = if r.view.length - r.pos.toNat < n.toNat then some (.error underflow r)
      else some (.ok () r) := by
  have hiff : byteSize r.view - r.pos < n ↔ r.view.length - r.pos.toNat < n.toNat := by
    rw [UInt64.lt_iff_toNat_lt, ← h.remaining_to_nat]
    rfl
  show (if byteSize r.view - r.pos < n then Attempt.throw underflow else pure ()) r = _
  simp only [hiff]
  split <;> rfl

theorem require_of_short (h : r.InView) {n : UInt64}
    (hshort : r.view.length - r.pos.toNat < n.toNat) :
    require n r = some (.error underflow r) := by
  rw [require_eq h, if_pos hshort]

theorem require_of_long (h : r.InView) {n : UInt64}
    (hlong : ¬ r.view.length - r.pos.toNat < n.toNat) : require n r = some (.ok () r) := by
  rw [require_eq h, if_neg hlong]

/-- A method that requires `n` bytes, takes them and then ends. -/
theorem guarded_refines {α : Type} {n : UInt64} {rest : Unit → Method α} {m : Proc BinReader α}
    (value : MachineReader → α)
    (hshort : ∀ r : MachineReader, r.view.length - r.pos.toNat < n.toNat →
      m r.unbounded = .error underflow r.unbounded)
    (hlong : ∀ r : MachineReader, ¬ r.view.length - r.pos.toNat < n.toNat →
      m r.unbounded = .ok (value r) { view := r.view, pos := r.pos.toNat + n.toNat })
    (hrest : ∀ r : MachineReader, r.pos.toNat + n.toNat ≤ r.view.length →
      rest () r = some (.ok (value r) { r with pos := r.pos + n })) :
    Refines (require n >>= rest) m := by
  intro r h
  by_cases hlt : r.view.length - r.pos.toNat < n.toNat
  · exact ⟨.error underflow r, Attempt.bind_of_error (require_of_short h hlt) _,
      (hshort r hlt).symm, h, fun e he => by cases he; rfl⟩
  · have hle := h.pos_le
    have hinside : r.pos.toNat + n.toNat ≤ r.view.length := by omega
    obtain ⟨hin, hunbounded⟩ := h.advance hinside
    refine ⟨.ok (value r) { r with pos := r.pos + n }, ?_, ?_, hin, fun e he => by cases he⟩
    · rw [Attempt.bind_of_ok (require_of_long h hlt), hrest r hinside]
    · rw [mapState, hunbounded, hlong r hlt]

/-- Reading a block is what the model of the reader does. -/
theorem bytes_fixed_refines (n : UInt64) :
    Refines (bytesFixed n) (BinReader.bytesFixed n.toNat) := by
  refine guarded_refines (fun r => (r.view.drop r.pos.toNat).take n.toNat)
    (fun _ hlt => if_pos hlt) (fun _ hlt => if_neg hlt) fun r hinside => ?_
  have hspan : subspan r.pos n r = some (.ok ((r.view.drop r.pos.toNat).take n.toNat) r) :=
    if_pos hinside
  show (subspan r.pos n >>= _) r = _
  rw [Attempt.bind_of_ok hspan]
  rfl

/-- So is passing over one. -/
theorem skip_refines (n : UInt64) : Refines (skip n) (BinReader.skip n.toNat) :=
  guarded_refines (fun _ => ()) (fun _ hlt => if_pos hlt) (fun _ hlt => if_neg hlt) fun _ _ => rfl

/-- An access inside the view gives the byte. -/
theorem byte_at_eq {i : UInt64} (hi : i.toNat < r.view.length) :
    byteAt i r = some (.ok (r.view.getD i.toNat 0) r) := by
  rw [byteAt, List.getD, List.getElem?_eq_getElem hi]
  rfl

/-- Reading a byte is what the model of the reader does. -/
theorem u8_refines : Refines u8 BinReader.u8 := by
  refine guarded_refines (n := 1) (fun r => r.view.getD r.pos.toNat 0) (fun r hlt => ?_)
    (fun r hlt => ?_) fun r hinside => ?_
  · have hfixed : BinReader.bytesFixed 1 r.unbounded = .error underflow r.unbounded := if_pos hlt
    show EStateM.bind (BinReader.bytesFixed 1) _ r.unbounded = _
    rw [EStateM.bind, hfixed]
  · have hfixed : BinReader.bytesFixed 1 r.unbounded =
        .ok ((r.view.drop r.pos.toNat).take 1) { view := r.view, pos := r.pos.toNat + 1 } :=
      if_neg hlt
    have hhead : ((r.view.drop r.pos.toNat).take 1).headD 0 = r.view.getD r.pos.toNat 0 := by
      rw [List.headD_eq_head?_getD, List.head?_take, List.head?_drop]
      rfl
    show EStateM.bind (BinReader.bytesFixed 1) _ r.unbounded = _
    rw [EStateM.bind, hfixed, ← hhead]
    rfl
  · show (byteAt r.pos >>= _) r = _
    rw [Attempt.bind_of_ok (byte_at_eq hinside)]
    rfl

/-- The bytes of a word that is inside the view are inside the view. -/
theorem get_le_eq (h : r.InView) {width : Nat} (hwidth : width ≤ 8) :
    getLe r.pos width r =
      match BinReader.getLe r.view r.pos.toNat width with
      | .ok v => some (.ok v r)
      | .error e => some (.error e r) := by
  have hle := h.pos_le
  have hadd : ∀ i ≤ width, (r.pos + UInt64.ofNat i).toNat = r.pos.toNat + i := by
    intro i hi
    have hnat : (UInt64.ofNat i).toNat = i := by
      rw [UInt64.toNat_ofNat', Nat.mod_eq_of_lt (by omega)]
    rw [h.add_to_nat (by omega), hnat]
  have hiff : byteSize r.view < r.pos + UInt64.ofNat width ↔
      r.view.length < r.pos.toNat + width := by
    rw [UInt64.lt_iff_toNat_lt, h.size_to_nat, hadd width (Nat.le_refl _)]
  show (if byteSize r.view < r.pos + UInt64.ofNat width then Attempt.throw underflow else _) r = _
  rw [BinReader.getLe]
  by_cases hshort : r.view.length < r.pos.toNat + width
  · rw [if_pos (hiff.mpr hshort), if_pos hshort]
    rfl
  · rw [if_neg (fun hlt => hshort (hiff.mp hlt)), if_neg hshort]
    refine Attempt.foldl_m_eq (fun v i hi => ?_) 0
    rw [List.mem_range] at hi
    have hpos := hadd i (Nat.le_of_lt hi)
    rw [Attempt.bind_of_ok (byte_at_eq (by omega)), hpos]
    rfl

/-- Reading a number is what the model of the reader does. -/
theorem word_refines {width : Nat} (hwidth : width ≤ 8) :
    Refines (word width) (BinReader.word width) := by
  intro r h
  have hget := get_le_eq h hwidth
  show ∃ r', (getLe r.pos width >>= _) r = some r' ∧ mapState unbounded r' =
    (match BinReader.getLe r.view r.pos.toNat width with
    | .ok v => .ok v { view := r.view, pos := r.pos.toNat + width }
    | .error e => .error e r.unbounded) ∧ _
  cases hword : BinReader.getLe r.view r.pos.toNat width with
  | error e =>
      rw [hword] at hget
      have he : e = underflow := by
        unfold BinReader.getLe at hword
        split at hword <;> cases hword
        rfl
      exact ⟨.error e r, Attempt.bind_of_error hget _, rfl, h, fun e' he' => by cases he'; exact he⟩
  | ok v =>
      rw [hword] at hget
      have hinside : r.pos.toNat + (UInt64.ofNat width).toNat ≤ r.view.length := by
        unfold BinReader.getLe at hword
        split at hword
        · cases hword
        · rw [UInt64.toNat_ofNat', Nat.mod_eq_of_lt (by omega)]
          omega
      obtain ⟨hin, hunbounded⟩ := h.advance hinside
      rw [UInt64.toNat_ofNat', Nat.mod_eq_of_lt (by omega)] at hunbounded
      refine ⟨.ok v { r with pos := r.pos + UInt64.ofNat width }, ?_, ?_, hin,
        fun e he => by cases he⟩
      · rw [Attempt.bind_of_ok hget]
        rfl
      · rw [mapState, hunbounded]

/-- Every method of the reader. -/
theorem exec_refines_read (c : ReaderCall) : Refines c.exec c.read := by
  cases c with
  | u8 => exact u8_refines
  | u16 => exact simulates_bind (word_refines (by decide)) fun _ => simulates_pure _
  | u32 => exact simulates_bind (word_refines (by decide)) fun _ => simulates_pure _
  | u64 => exact word_refines (by decide)
  | i64 => exact simulates_bind (word_refines (by decide)) fun _ => simulates_pure _
  | boolean => exact simulates_bind u8_refines fun _ => simulates_pure _
  | bytes => exact simulates_bind (word_refines (by decide)) fun n => bytes_fixed_refines n
  | string => exact simulates_bind (word_refines (by decide)) fun n => bytes_fixed_refines n
  | bytesFixed n => exact bytes_fixed_refines n
  | sha256 => exact simulates_bind (bytes_fixed_refines 32) fun _ => simulates_pure _
  | timePoint period =>
      exact simulates_bind
        (simulates_bind (word_refines (by decide)) fun _ => simulates_pure _) fun _ =>
          simulates_pure _
  | skip n => exact skip_refines n

end MachineReader

/-! ## What a call consumes -/

section Confinement

variable {α β : Type}

/-- Wherever these bytes stand in a view, the procedure consumes them and returns `a`. -/
def Consumes (m : Proc BinReader α) (slice : Bytes) (a : α) : Prop :=
  ∀ before behind, m { view := before ++ slice ++ behind, pos := before.length } =
    .ok a { view := before ++ slice ++ behind, pos := before.length + slice.length }

/-- A procedure that returns has consumed the bytes between the two positions. One that throws is
where it was, or behind the bytes it has validated. -/
def Confined (m : Proc BinReader α) (validated : Nat) : Prop :=
  ∀ r : BinReader, r.pos ≤ r.view.length → Post m r
    (fun a r' => ∃ n, r.pos + n ≤ r.view.length ∧ r' = { r with pos := r.pos + n } ∧
      Consumes m ((r.view.drop r.pos).take n) a)
    (fun _ r' => r' = r ∨
      r.pos + validated ≤ r.view.length ∧ r' = { r with pos := r.pos + validated })

/-- A method that takes `n` bytes or throws at once. -/
structure TakesFixed (m : Proc BinReader α) (n : Nat) (value : Bytes → α) : Prop where
  reads : ∀ slice : Bytes, slice.length = n → Consumes m slice (value slice)
  throws : ∀ r : BinReader, r.pos ≤ r.view.length → r.view.length < r.pos + n →
    ∃ e, m r = .error e r

/-- A call of fixed length, by its outcomes. -/
theorem TakesFixed.post {m : Proc BinReader α} {n : Nat} {value : Bytes → α}
    (h : TakesFixed m n value) {r : BinReader} (hr : r.pos ≤ r.view.length) :
    Post m r (fun a r' => r.pos + n ≤ r.view.length ∧ r' = { r with pos := r.pos + n } ∧
      Consumes m ((r.view.drop r.pos).take n) a) (fun _ r' => r' = r) := by
  by_cases hn : r.view.length < r.pos + n
  · obtain ⟨e, he⟩ := h.throws r hr hn
    rw [Post, he]
  · have hslice : ((r.view.drop r.pos).take n).length = n := by
      rw [List.length_take, List.length_drop]
      omega
    have hbefore : (r.view.take r.pos).length = r.pos := List.length_take_of_le hr
    have hview : r.view.take r.pos ++ (r.view.drop r.pos).take n ++ (r.view.drop r.pos).drop n =
        r.view := by
      rw [List.append_assoc, List.take_append_drop, List.take_append_drop]
    have hrun := h.reads _ hslice (r.view.take r.pos) ((r.view.drop r.pos).drop n)
    rw [hview, hbefore, hslice] at hrun
    rw [Post, hrun]
    exact ⟨by omega, rfl, h.reads _ hslice⟩

/-- A call of fixed length stays in the view. -/
theorem TakesFixed.confined {m : Proc BinReader α} {n : Nat} {value : Bytes → α}
    (h : TakesFixed m n value) : Confined m 0 := fun _ hr =>
  (h.post hr).mono (fun _ _ hmoved => ⟨n, hmoved⟩) fun _ _ hsame => .inl hsame

/-- Two calls in a row consume one slice after the other. -/
theorem Consumes.bind {m : Proc BinReader α} {f : α → Proc BinReader β} {slice slice' : Bytes}
    {a : α} {b : β} (hm : Consumes m slice a) (hf : Consumes (f a) slice' b) :
    Consumes (m >>= f) (slice ++ slice') b := by
  intro before behind
  have hfirst := hm before (slice' ++ behind)
  have hsecond := hf (before ++ slice) behind
  have hview : before ++ slice ++ (slice' ++ behind) = before ++ (slice ++ slice') ++ behind := by
    simp only [List.append_assoc]
  rw [hview] at hfirst
  rw [List.append_assoc before, List.length_append] at hsecond
  show EStateM.bind m f _ = _
  rw [EStateM.bind, hfirst]
  dsimp only
  rw [hsecond, List.length_append, Nat.add_assoc]

theorem Consumes.map {m : Proc BinReader α} {slice : Bytes} {a : α} (hm : Consumes m slice a)
    (f : α → β) : Consumes (do let a ← m; pure (f a)) slice (f a) := by
  intro before behind
  show EStateM.bind m _ _ = _
  rw [EStateM.bind, hm before behind]
  rfl

theorem Confined.map {m : Proc BinReader α} {validated : Nat} (h : Confined m validated)
    (f : α → β) : Confined (do let a ← m; pure (f a)) validated := by
  intro r hr
  rw [post_bind]
  refine (h r hr).mono (fun a r' hr' => ?_) fun _ _ hr' => hr'
  obtain ⟨n, hn, hmoved, hreads⟩ := hr'
  exact ⟨n, hn, hmoved, hreads.map f⟩

theorem getD_inside {before slice behind : Bytes} {i : Nat} (hi : i < slice.length) :
    (before ++ slice ++ behind).getD (before.length + i) 0 = slice.getD i 0 := by
  rw [List.append_assoc, List.getD, List.getElem?_append_right (Nat.le_add_right _ _),
    Nat.add_sub_cancel_left, List.getElem?_append_left hi, ← List.getD]

/-- A number takes as many bytes as it is wide. -/
theorem word_takes_fixed (width : Nat) : TakesFixed (BinReader.word width) width fun slice =>
    (List.range width).foldl
      (fun v i => v ||| ((slice.getD i 0).toUInt64 <<< UInt64.ofNat (8 * i))) 0 where
  reads slice hslice before behind := by
    have hlong : ¬ (before ++ slice ++ behind).length < before.length + width := by
      simp only [List.length_append]
      omega
    rw [BinReader.word]
    dsimp only
    rw [BinReader.getLe, if_neg hlong, hslice]
    dsimp only
    congr 1
    refine List.foldl_ext _ _ _ fun v i hi => ?_
    rw [getD_inside (by rw [hslice]; exact List.mem_range.mp hi)]
  throws r _ hshort := by
    rw [BinReader.word, BinReader.getLe, if_pos hshort]
    exact ⟨_, rfl⟩

theorem not_remaining_lt {before slice behind : Bytes} {n : Nat} (hslice : slice.length = n) :
    ¬ BinReader.remaining { view := before ++ slice ++ behind, pos := before.length } < n := by
  simp only [BinReader.remaining, List.length_append]
  omega

theorem remaining_lt {r : BinReader} {n : Nat} (hr : r.pos ≤ r.view.length)
    (hshort : r.view.length < r.pos + n) : r.remaining < n := by
  rw [BinReader.remaining]
  omega

/-- A block takes its length. -/
theorem bytes_fixed_takes_fixed (n : Nat) : TakesFixed (BinReader.bytesFixed n) n id where
  reads slice hslice before behind := by
    rw [BinReader.bytesFixed, if_neg (not_remaining_lt hslice), hslice, List.append_assoc,
      List.drop_left, List.take_left' hslice]
    rfl
  throws r hr hshort := ⟨_, if_pos (remaining_lt hr hshort)⟩

/-- Passing over bytes takes as many. -/
theorem skip_takes_fixed (n : Nat) : TakesFixed (BinReader.skip n) n fun _ => () where
  reads slice hslice before behind := by
    rw [BinReader.skip, if_neg (not_remaining_lt hslice), hslice]
  throws r hr hshort := ⟨_, if_pos (remaining_lt hr hshort)⟩

/-- The length is read first, and stays consumed if the bytes are not there. -/
theorem confined_bytes : Confined BinReader.bytes 8 := by
  intro r hr
  rw [BinReader.bytes, post_bind]
  refine ((word_takes_fixed 8).post hr).mono (fun length r₁ hr₁ => ?_) fun _ _ hsame => .inl hsame
  obtain ⟨hinside, rfl, hlength⟩ := hr₁
  refine ((bytes_fixed_takes_fixed length.toNat).post hinside).mono (fun a r₂ hr₂ => ?_)
    fun _ _ hsame => .inr ⟨hinside, hsame⟩
  obtain ⟨hinside', rfl, hbytes⟩ := hr₂
  refine ⟨8 + length.toNat, by rw [← Nat.add_assoc]; exact hinside', by rw [← Nat.add_assoc], ?_⟩
  rw [List.take_add, List.drop_drop]
  exact Consumes.bind hlength hbytes

/-- Every method of the reader. -/
theorem read_confined (c : ReaderCall) : Confined c.read c.validated := by
  cases c with
  | u8 => exact (bytes_fixed_takes_fixed 1).confined.map fun b => b.headD 0
  | u16 => exact (word_takes_fixed 2).confined.map UInt64.toUInt16
  | u32 => exact (word_takes_fixed 4).confined.map UInt64.toUInt32
  | u64 => exact (word_takes_fixed 8).confined
  | i64 => exact (word_takes_fixed 8).confined.map UInt64.toInt64
  | boolean => exact ((bytes_fixed_takes_fixed 1).confined.map fun b => b.headD 0).map (· != 0)
  | bytes => exact confined_bytes
  | string => exact confined_bytes
  | bytesFixed n => exact (bytes_fixed_takes_fixed n.toNat).confined
  | sha256 => exact (bytes_fixed_takes_fixed 32).confined.map BinReader.digestOf
  | timePoint period =>
      exact ((word_takes_fixed 8).confined.map UInt64.toInt64).map (· * period.perMillisecond)
  | skip n => exact (skip_takes_fixed n.toNat).confined

end Confinement

/-! ## Sequences of calls -/

namespace ReaderCall

/-- The bytes of the view between the positions of two readers. -/
def sliceBetween (r r' : MachineReader) : Bytes :=
  (r.view.drop r.pos.toNat).take (r'.pos.toNat - r.pos.toNat)

/-- How a call on `r` may end. If it returns, then it would return the same on the bytes between
the two positions alone, and consume them all. If it throws, then the position is what it was or
just behind the bytes that have been validated. -/
inductive Ends (c : ReaderCall) (r : MachineReader) :
    EStateM.Result Exn MachineReader c.Result → Prop where
  | returned {a : c.Result} {r' : MachineReader} (hview : r'.view = r.view)
      (hforward : r.pos ≤ r'.pos) (hinside : r'.pos.toNat ≤ r.view.length)
      (hslice : c.exec { view := sliceBetween r r' } =
        some (.ok a { view := sliceBetween r r', pos := byteSize (sliceBetween r r') })) :
      Ends c r (.ok a r')
  | threw {r' : MachineReader} (hview : r'.view = r.view)
      (hpos : r'.pos = r.pos ∨ r'.pos.toNat = r.pos.toNat + c.validated)
      (hinside : r'.pos.toNat ≤ r.view.length) : Ends c r (.error underflow r')

/-- However a call ends, the reader is inside its view. -/
theorem Ends.in_view {c : ReaderCall} {r : MachineReader} (hr : r.InView)
    {result : EStateM.Result Exn MachineReader c.Result} (h : c.Ends r result) :
    (finalState result).view = r.view ∧ (finalState result).InView := by
  cases h with
  | returned hview _ hinside _ => exact ⟨hview, hr.of_view hview hinside⟩
  | threw hview _ hinside => exact ⟨hview, hr.of_view hview hinside⟩

/-- What a method reads from a view that is not too large, it reads on 64-bit positions. -/
theorem exec_of_consumes {c : ReaderCall} {slice : Bytes} {a : c.Result}
    (h : Consumes c.read slice a) (hroom : slice.length + 8 < 2 ^ 64) :
    c.exec { view := slice } = some (.ok a { view := slice, pos := byteSize slice }) := by
  obtain ⟨result, hrun, hread, -⟩ := MachineReader.exec_refines_read c { view := slice }
    ⟨Nat.zero_le _, hroom⟩
  have halone := h [] []
  rw [List.nil_append, List.append_nil] at halone
  rw [hrun]
  cases result with
  | ok a' r' =>
      obtain ⟨view, pos⟩ := r'
      injection hread.trans halone with ha hreader
      injection hreader with hview hpos
      have hsize : pos = byteSize slice := by
        apply UInt64.toNat_inj.mp
        rw [byte_size_to_nat (by omega)]
        exact hpos.trans (Nat.zero_add _)
      rw [ha, hsize, ← hview]
  | error e r' => exact absurd (hread.trans halone) (by simp [mapState])

/-- From a position inside the view a call ends, and stays inside. -/
theorem exec_ends (c : ReaderCall) {r : MachineReader} (hr : r.InView) :
    ∃ result, c.exec r = some result ∧ c.Ends r result := by
  obtain ⟨result, hrun, hread, hin, hthrown⟩ := MachineReader.exec_refines_read c r hr
  refine ⟨result, hrun, ?_⟩
  have hconfined := read_confined c r.unbounded hr.pos_le
  cases result with
  | ok a r' =>
      obtain ⟨n, hinside, hmoved, hreads⟩ := hconfined.of_ok hread.symm
      have hview : r'.view = r.view := congrArg BinReader.view hmoved
      have hpos : r'.pos.toNat = r.pos.toNat + n := congrArg BinReader.pos hmoved
      have hslice : sliceBetween r r' = (r.view.drop r.pos.toNat).take n := by
        rw [sliceBetween, hpos, Nat.add_sub_cancel_left]
      have hroom := hr.room
      refine .returned hview (UInt64.le_iff_toNat_le.mpr (by omega)) (hpos ▸ hinside) ?_
      rw [hslice]
      refine exec_of_consumes hreads ?_
      rw [List.length_take, List.length_drop]
      omega
  | error e r' =>
      have he := hthrown e rfl
      subst he
      rcases hconfined.of_error hread.symm with hsame | ⟨hinside, hmoved⟩
      · have hview : r'.view = r.view := congrArg BinReader.view hsame
        have hpos : r'.pos.toNat = r.pos.toNat := congrArg BinReader.pos hsame
        exact .threw hview (.inl (UInt64.toNat_inj.mp hpos)) (hpos ▸ hr.pos_le)
      · have hview : r'.view = r.view := congrArg BinReader.view hmoved
        have hpos : r'.pos.toNat = r.pos.toNat + c.validated := congrArg BinReader.pos hmoved
        exact .threw hview (.inr hpos) (hpos ▸ hinside)

/-- The reader after a call, whether it returned or threw. -/
def after (r : MachineReader) (c : ReaderCall) : Option MachineReader := (c.exec r).map finalState

/-- Any sequence of calls. -/
theorem exec_all_ends (calls : List ReaderCall) {r : MachineReader} (hr : r.InView) :
    ∃ r', calls.foldlM after r = some r' ∧ r'.view = r.view ∧ r'.InView := by
  induction calls generalizing r with
  | nil => exact ⟨r, rfl, rfl, hr⟩
  | cons c rest ih =>
      obtain ⟨result, hrun, hends⟩ := c.exec_ends hr
      obtain ⟨hview, hin⟩ := hends.in_view hr
      obtain ⟨r', hrest, hview', hin'⟩ := ih hin
      refine ⟨r', ?_, hview'.trans hview, hin'⟩
      rw [List.foldlM_cons, after, hrun]
      exact hrest

end ReaderCall

end CheckpointStore
