import CheckpointStore.Foundation.Runs
import CheckpointStore.Storage.LocalFiles

/-!
# The local backend as a store of blobs

What the backend is for is a `BlobState`: whole contents, committed or staged, by digest. Its steps
say all that a call may do to it. `local_backend_refines` shows that the backend takes no other
steps, whatever the system refuses and however often the process ends: a blob is never seen in part.

A process that dies inside a method leaves the files as they are when the system refuses the calls
that were still to come, so a restart after such a method stands for it.
-/

namespace CheckpointStore

open Foundation Foundation.Procedure

/-! ## The blobs -/

/-- The contents that are committed and staged. -/
@[ext] structure BlobState where
  objects : Digest → Option Bytes
  staged : Digest → Option Bytes

/-- A call of the backend and its outcome, or the start of a new process. -/
inductive BlobEvent where
  | putTemp (d : Digest) (data : Bytes) (outcome : Except Exn Unit)
  | commit (d : Digest) (outcome : Except Exn Unit)
  | remove (d : Digest) (outcome : Except Exn Bool)
  | read (d : Digest) (outcome : Except Exn Bytes)
  | verify (d expected : Digest) (outcome : Except Exn IntegrityState)
  | restart

namespace BlobState

variable (H : StreamHash)

/-- The steps of a store of blobs. A commit that fails may lose the blob that it was to replace, and
what is staged does not outlast the process. -/
inductive Step : BlobState → BlobEvent → BlobState → Prop where
  | staged {s d data} : Step s (.putTemp d data (.ok ()))
      { s with staged := Function.update s.staged d (some data) }
  | notStaged {s d data e} : Step s (.putTemp d data (.error e)) s
  | committed {s d data} (h : s.staged d = some data) : Step s (.commit d (.ok ()))
      { objects := Function.update s.objects d (some data)
        staged := Function.update s.staged d none }
  | notCommitted {s d e} : Step s (.commit d (.error e)) s
  | lost {s d e} : Step s (.commit d (.error e))
      { s with objects := Function.update s.objects d none }
  | removed {s d} : Step s (.remove d (.ok true))
      { s with objects := Function.update s.objects d none }
  | notRemoved {s d} : Step s (.remove d (.ok false)) s
  | read {s d content refused} (h : s.objects d = some content) :
      Step s (.read d (.ok (LocalBackend.readBuffer content refused))) s
  | notRead {s d} :
      Step s (.read d (.error (.error .notFound "backend object not found"))) s
  | verified {s d content part expected} (h : s.objects d = some content)
      (hpart : part <+: content) (hhash : H.sha256 part = expected) :
      Step s (.verify d expected (.ok .verified)) s
  | notVerified {s d expected answer} (h : answer ≠ .verified) :
      Step s (.verify d expected (.ok answer)) s
  | restarted {s} : Step s .restart { s with staged := fun _ => none }

variable {H}

/-- Every content is one of the first or came whole from a call of `put_temp` that returned. -/
def From (first : BlobState) (labels : List BlobEvent) (s : BlobState) : Prop :=
  ∀ d content, s.objects d = some content ∨ s.staged d = some content →
    first.objects d = some content ∨ .putTemp d content (.ok ()) ∈ labels

theorem update_eq_some {f : Digest → Option Bytes} {d d' : Digest} {value : Option Bytes}
    {content : Bytes} (h : Function.update f d value d' = some content) :
    d' = d ∧ value = some content ∨ f d' = some content := by
  by_cases hd : d' = d
  · rw [hd, Function.update_self] at h
    exact .inl ⟨hd, h⟩
  · rw [Function.update_of_ne hd] at h
    exact .inr h

/-- The origin of the objects is kept by one more event. -/
theorem From.step {first s s' : BlobState} {labels : List BlobEvent} {label : BlobEvent}
    (h : From first labels s) (hstep : Step H s label s') :
    From first (labels ++ [label]) s' := by
  have hold : From first (labels ++ [label]) s := fun d content hcontent =>
    (h d content hcontent).imp id fun hin => List.mem_append_left _ hin
  cases hstep with
  | notStaged | notCommitted | notRemoved | read | notRead | verified | notVerified => exact hold
  | @staged d data =>
      rintro d' content (hobject | hstaged)
      · exact hold d' content (.inl hobject)
      · rcases update_eq_some hstaged with ⟨rfl, hdata⟩ | hstaged
        · cases hdata
          exact .inr (List.mem_append_right _ List.mem_cons_self)
        · exact hold d' content (.inr hstaged)
  | @committed d data hdata =>
      rintro d' content (hobject | hstaged)
      · rcases update_eq_some hobject with ⟨rfl, hcontent⟩ | hobject
        · exact hold d' content (.inr (hdata.trans hcontent))
        · exact hold d' content (.inl hobject)
      · exact hold d' content (.inr ((update_eq_some hstaged).resolve_left nofun))
  | lost | removed =>
      rintro d' content (hobject | hstaged)
      · exact hold d' content (.inl ((update_eq_some hobject).resolve_left nofun))
      · exact hold d' content (.inr hstaged)
  | restarted =>
      rintro d' content (hobject | hstaged)
      · exact hold d' content (.inl hobject)
      · cases hstaged

/-- Every object of a run comes from a commit or was there at first. -/
theorem from_of_run {first s : BlobState} {labels : List BlobEvent}
    (hfirst : ∀ d, first.staged d = none) (hrun : Run (Step H) first labels s) :
    From first labels s := by
  induction hrun with
  | start =>
      rintro d content (hobject | hstaged)
      · exact .inl hobject
      · rw [hfirst] at hstaged
        cases hstaged
  | extend _ hlast ih => exact ih.step hlast

end BlobState

/-! ## The backend -/

namespace LocalBackend

variable {α : Type} (site : LocalSite) (H : StreamHash)

/-- How a method ended. -/
def outcome : EStateM.Result Exn LocalBackend α → Except Exn α
  | .ok a _ => .ok a
  | .error e _ => .error e

/-- The calls of one process after the other. -/
inductive Step : LocalBackend → BlobEvent → LocalBackend → Prop where
  | putTemp {b d data} :
      Step b (.putTemp d data (outcome (putTemp site (blobKey d) data b)))
        (finalState (putTemp site (blobKey d) data b))
  | commit {b d} :
      Step b (.commit d (outcome (commit site (blobKey d) b)))
        (finalState (commit site (blobKey d) b))
  | remove {b d} :
      Step b (.remove d (outcome (remove site (blobKey d) b)))
        (finalState (remove site (blobKey d) b))
  | read {b d} :
      Step b (.read d (outcome (read site (blobKey d) b))) (finalState (read site (blobKey d) b))
  | verify {b d expected} :
      Step b (.verify d expected (outcome (verify site H (blobKey d) expected b)))
        (finalState (verify site H (blobKey d) expected b))
  | restart {b} : Step b .restart (finalState (construct site { tree := b.tree, calls := b.calls }))

/-- The blobs on the file system. -/
def blobs (b : LocalBackend) : BlobState where
  objects d := b.tree.fileAt (site.blobLocation d)
  staged d := (b.staged.find (blobKey d)).bind fun tmp => b.tree.fileAt tmp.location

/-- What is staged has a temporary name with a number that has been given. -/
def Given (b : LocalBackend) : Prop :=
  ∀ d tmp, b.staged.find (blobKey d) = some tmp →
    ∃ n, n ≤ b.seq ∧ tmp.location = site.tempLocation d n

variable {site H} {b b' : LocalBackend} {d : Digest}

theorem blob_key_eq_iff {d' : Digest} : blobKey d' = blobKey d ↔ d' = d :=
  ⟨blob_key_injective, congrArg blobKey⟩

/-- A property of both ways to end holds for the outcome. -/
theorem post_outcome {m : Proc LocalBackend α} {P : Except Exn α → LocalBackend → Prop}
    (h : Post m b (fun a b' => P (.ok a) b') (fun e b' => P (.error e) b')) :
    P (outcome (m b)) (finalState (m b)) := by
  cases hrun : m b with
  | ok a b' => exact h.of_ok hrun
  | error e b' => exact h.of_error hrun

namespace Given

variable (h : b.Given site)

include h

/-- A staged content stays as long as its temporary file does. -/
theorem staged_eq (hfind : b'.staged.find (blobKey d) = b.staged.find (blobKey d))
    (hfiles : ∀ n, n ≤ b.seq →
      b'.tree.fileAt (site.tempLocation d n) = b.tree.fileAt (site.tempLocation d n)) :
    (b'.blobs site).staged d = (b.blobs site).staged d := by
  show (b'.staged.find (blobKey d)).bind _ = (b.staged.find (blobKey d)).bind _
  rw [hfind]
  cases htmp : b.staged.find (blobKey d) with
  | none => rfl
  | some tmp =>
      obtain ⟨n, hle, hn⟩ := h d tmp htmp
      rw [Option.bind_some, Option.bind_some, hn]
      exact hfiles n hle

/-- Files at other places than those of blobs and of what is staged do not count. -/
theorem blobs_eq (hstaged : b'.staged = b.staged)
    (hobjects : ∀ d, b'.tree.fileAt (site.blobLocation d) = b.tree.fileAt (site.blobLocation d))
    (htemp : ∀ d n, n ≤ b.seq →
      b'.tree.fileAt (site.tempLocation d n) = b.tree.fileAt (site.tempLocation d n)) :
    b'.blobs site = b.blobs site :=
  BlobState.ext (funext hobjects) (funext fun d => h.staged_eq (by rw [hstaged]) (htemp d))

/-- One blob is replaced. -/
theorem blobs_at (hstaged : b'.staged = b.staged)
    (hothers : ∀ p, p ≠ site.blobLocation d → b'.tree.fileAt p = b.tree.fileAt p)
    {value : Option Bytes} (hvalue : b'.tree.fileAt (site.blobLocation d) = value) :
    b'.blobs site = { b.blobs site with
      objects := Function.update (b.blobs site).objects d value } := by
  refine BlobState.ext (funext fun d' => ?_) (funext fun d' =>
    h.staged_eq (by rw [hstaged]) fun n _ => hothers _ LocalSite.temp_location_ne_blob)
  show b'.tree.fileAt (site.blobLocation d') = Function.update (b.blobs site).objects d value d'
  by_cases hd : d' = d
  · rw [hd, hvalue, Function.update_self]
  · rw [hothers _ fun heq => hd (LocalSite.blob_location_inj heq), Function.update_of_ne hd]
    rfl

/-- What is staged later was staged before, or has a number that has been given since. -/
theorem later (hseq : b.seq ≤ b'.seq)
    (hstaged : ∀ d tmp, b'.staged.find (blobKey d) = some tmp →
      b.staged.find (blobKey d) = some tmp ∨
        ∃ n, n ≤ b'.seq ∧ tmp.location = site.tempLocation d n) : b'.Given site := by
  intro d tmp htmp
  rcases hstaged d tmp htmp with hold | hnew
  · obtain ⟨n, hle, hn⟩ := h d tmp hold
    exact ⟨n, UInt64.le_trans hle hseq, hn⟩
  · exact hnew

theorem of_same_memory (hmemory : b.SameMemory b') : b'.Given site :=
  h.later (hmemory.2 ▸ UInt64.le_refl _) fun _ _ htmp => .inl (hmemory.1 ▸ htmp)

theorem ne_blob {d' : Digest} {tmp : PathName} (htmp : b.staged.find (blobKey d) = some tmp) :
    tmp.location ≠ site.blobLocation d' := by
  obtain ⟨n, -, hn⟩ := h d tmp htmp
  rw [hn]
  exact LocalSite.temp_location_ne_blob

end Given

/-- What one step of the backend is as a step of a store of blobs. -/
structure Follows (site : LocalSite) (H : StreamHash) (b : LocalBackend) (label : BlobEvent)
    (b' : LocalBackend) : Prop where
  step : BlobState.Step H (b.blobs site) label (b'.blobs site)
  given : b'.Given site
  seq : b'.seq.toNat ≤ b.seq.toNat + 1

/-- A call that changes no file follows an event that changes no blob. -/
theorem follows_of_same_files {label : BlobEvent} (h : b.Given site) (hfiles : b.SameFiles b')
    (hstep : BlobState.Step H (b.blobs site) label (b.blobs site)) : Follows site H b label b' where
  step := by
    rw [h.blobs_eq hfiles.2.1 (fun _ => by rw [hfiles.1]) fun _ _ _ => by rw [hfiles.1]]
    exact hstep
  given := h.of_same_memory hfiles.2
  seq := by
    rw [hfiles.2.2]
    omega

/-- Staging follows the abstract event. -/
theorem follows_put_temp {data : Bytes} (h : b.Given site) (hseq : b.seq.toNat + 1 < 2 ^ 64) :
    Follows site H b (.putTemp d data (outcome (putTemp site (blobKey d) data b)))
      (finalState (putTemp site (blobKey d) data b)) := by
  have hnext : (b.seq + 1).toNat = b.seq.toNat + 1 := by
    rw [UInt64.toNat_add]
    exact Nat.mod_eq_of_lt hseq
  have hgrows : b.seq ≤ b.seq + 1 := by
    rw [UInt64.le_iff_toNat_le, hnext]
    omega
  -- the number is a new one
  have hnew : ∀ d' n, n ≤ b.seq → site.tempLocation d' n ≠ site.tempLocation d (b.seq + 1) := by
    intro d' n hle heq
    obtain ⟨-, rfl⟩ := LocalSite.temp_location_inj heq
    rw [UInt64.le_iff_toNat_le, hnext] at hle
    omega
  refine post_outcome (P := fun result b' => Follows site H b (.putTemp d data result) b') ?_
  refine post_put_temp.mono (fun _ b' hb' => ?_) fun e b' hb' => ?_
  · obtain ⟨hseq', hstaged, hfiles⟩ := hb'
    have hfind : ∀ d', b'.staged.find (blobKey d') = if d' = d then
        some (tempPathOf site (blobKey d) (b.seq + 1)) else b.staged.find (blobKey d') := by
      intro d'
      simp only [hstaged, UnorderedMap.find_assign, blob_key_eq_iff]
    refine ⟨?_, h.later (hseq' ▸ hgrows) fun d' tmp htmp => ?_, by rw [hseq', hnext]⟩
    · have hblobs : b'.blobs site = { b.blobs site with
          staged := Function.update (b.blobs site).staged d (some data) } := by
        refine BlobState.ext (funext fun d' => ?_) (funext fun d' => ?_)
        · exact (hfiles _).trans (if_neg LocalSite.temp_location_ne_blob.symm)
        · show _ = Function.update (b.blobs site).staged d (some data) d'
          by_cases hd : d' = d
          · show (b'.staged.find (blobKey d')).bind _ = _
            rw [hfind, if_pos hd, hd, Function.update_self, Option.bind_some, hfiles,
              temp_location]
            exact if_pos rfl
          · rw [Function.update_of_ne hd]
            exact h.staged_eq ((hfind d').trans (if_neg hd)) fun n hle =>
              (hfiles _).trans (if_neg (hnew d' n hle))
      rw [hblobs]
      exact .staged
    · rw [hfind] at htmp
      split at htmp
      · next hd =>
          cases htmp
          exact .inr ⟨b.seq + 1, hseq' ▸ UInt64.le_refl _, by rw [hd, temp_location]; rfl⟩
      · exact .inl htmp
  · obtain ⟨hseq', hstaged, hfiles⟩ := hb'
    refine ⟨?_, h.later (hseq' ▸ hgrows) fun d' tmp htmp => .inl (hstaged ▸ htmp),
      by rw [hseq', hnext]⟩
    rw [h.blobs_eq hstaged (fun d' => (hfiles _).resolve_right fun hother =>
      LocalSite.temp_location_ne_blob hother.1.symm) fun d' n hle =>
      (hfiles _).resolve_right fun hother => hnew d' n hle hother.1]
    exact .notStaged

/-- Committing follows the abstract event. -/
theorem follows_commit (h : b.Given site) :
    Follows site H b (.commit d (outcome (commit site (blobKey d) b)))
      (finalState (commit site (blobKey d) b)) := by
  refine post_outcome (P := fun result b' => Follows site H b (.commit d result) b') ?_
  refine (post_commit fun _ htmp => h.ne_blob htmp).mono (fun _ b' hb' => ?_) fun e b' hb' => ?_
  · obtain ⟨tmp, content, htmp, hcontent, hseq, hstaged, hfiles⟩ := hb'
    obtain ⟨n, -, hn⟩ := h d tmp htmp
    have hfind : ∀ d', b'.staged.find (blobKey d') =
        if d' = d then none else b.staged.find (blobKey d') := by
      intro d'
      simp only [hstaged, UnorderedMap.find_erase, blob_key_eq_iff]
    refine ⟨?_, h.later (hseq ▸ UInt64.le_refl _) fun d' tmp' htmp' => .inl ?_,
      by rw [hseq]; omega⟩
    · have hblobs : b'.blobs site =
          { objects := Function.update (b.blobs site).objects d (some content)
            staged := Function.update (b.blobs site).staged d none } := by
        refine BlobState.ext (funext fun d' => ?_) (funext fun d' => ?_)
        · show b'.tree.fileAt (site.blobLocation d') =
            Function.update (b.blobs site).objects d (some content) d'
          rw [hfiles]
          by_cases hd : d' = d
          · rw [if_pos (by rw [hd]), hd, Function.update_self]
          · rw [if_neg fun heq => hd (LocalSite.blob_location_inj heq),
              if_neg (h.ne_blob htmp).symm, Function.update_of_ne hd]
            rfl
        · show _ = Function.update (b.blobs site).staged d none d'
          by_cases hd : d' = d
          · show (b'.staged.find (blobKey d')).bind _ = _
            rw [hfind, if_pos hd, hd, Function.update_self, Option.bind_none]
          · rw [Function.update_of_ne hd]
            refine h.staged_eq ((hfind d').trans (if_neg hd)) fun n' _ => ?_
            rw [hfiles, if_neg LocalSite.temp_location_ne_blob, if_neg]
            rw [hn]
            exact fun heq => hd (LocalSite.temp_location_inj heq).1
      have hheld : (b.blobs site).staged d = some content := by
        show (b.staged.find (blobKey d)).bind _ = _
        rw [htmp, Option.bind_some, hcontent]
      rw [hblobs]
      exact .committed hheld
    · rw [hfind] at htmp'
      split at htmp'
      · cases htmp'
      · exact htmp'
  · obtain ⟨hmemory, hothers, hkept_or_gone⟩ := hb'
    refine ⟨?_, h.of_same_memory hmemory, by rw [hmemory.2]; omega⟩
    rcases hkept_or_gone with hkept | hgone
    · rw [h.blobs_at hmemory.1 hothers hkept]
      show BlobState.Step H _ _
        { b.blobs site with objects := Function.update _ d ((b.blobs site).objects d) }
      rw [Function.update_eq_self]
      exact .notCommitted
    · rw [h.blobs_at hmemory.1 hothers hgone]
      exact .lost

/-- Removing follows the abstract event. -/
theorem follows_remove (h : b.Given site) :
    Follows site H b (.remove d (outcome (remove site (blobKey d) b)))
      (finalState (remove site (blobKey d) b)) := by
  refine post_outcome (P := fun result b' => Follows site H b (.remove d result) b') ?_
  refine post_remove.mono (fun removed b' hb' => ?_) fun _ _ hthrown => hthrown.elim
  obtain ⟨hmemory, hfiles⟩ := hb'
  refine ⟨?_, h.of_same_memory hmemory, by rw [hmemory.2]; omega⟩
  cases removed with
  | true =>
      rw [h.blobs_at hmemory.1 (fun p hp => (hfiles p).trans (if_neg fun hboth => hp hboth.2))
        ((hfiles _).trans (if_pos ⟨rfl, rfl⟩))]
      exact .removed
  | false =>
      have hsame : ∀ p, b'.tree.fileAt p = b.tree.fileAt p := fun p =>
        (hfiles p).trans (if_neg fun hboth => Bool.false_ne_true hboth.1)
      rw [h.blobs_eq hmemory.1 (fun _ => hsame _) fun _ _ _ => hsame _]
      exact .notRemoved

/-- The constructor makes directories and nothing else. -/
theorem construct_preserves (b : LocalBackend) :
    Preserves (fun b' => b.SameMemory b' ∧ ∀ p, b'.tree.fileAt p = b.tree.fileAt p)
      (construct site) := by
  have hcreate : ∀ p, Ends
      (fun b' => b.SameMemory b' ∧ ∀ p, b'.tree.fileAt p = b.tree.fileAt p) (fun _ => True)
      (site.createDirectories p) := by
    rintro p b₁ ⟨hmemory, hfiles⟩
    refine post_create_directories.mono (fun _ b₂ hb₂ => ?_) fun _ _ hthrown => hthrown.elim
    exact ⟨hmemory.trans hb₂.1, fun p => (hb₂.2 p).trans (hfiles p)⟩
  have hdirectories := ends_for_m controlledDirectories fun sub =>
    ends_bind (hcreate (site.root.join (site.platform.parse sub))) fun _ => ends_pure PUnit.unit
  rw [preserves_iff_ends, construct]
  refine ends_ite (fun _ => ends_throw trivial) fun _ => ends_bind (hcreate _) fun created => ?_
  refine ends_ite (fun _ => hdirectories) fun _ => ?_
  refine ends_bind (fun _ hb₁ => hb₁) fun refused => ends_get_bind fun b₁ _ => ?_
  exact ends_ite (fun _ => ends_throw trivial) fun _ =>
    ends_ite (fun _ => hdirectories) fun _ => ends_throw trivial

/-- A new process starts on the same files, with nothing staged. -/
theorem follows_restart
    (h : SameMemory { tree := b.tree, calls := b.calls } b' ∧
      ∀ p, b'.tree.fileAt p = b.tree.fileAt p) : Follows site H b .restart b' := by
  obtain ⟨⟨hstaged, hseq⟩, hfiles⟩ := h
  have hnone : ∀ d, b'.staged.find (blobKey d) = none := by
    intro d
    rw [hstaged]
    rfl
  refine ⟨?_, fun d tmp htmp => ?_, by rw [hseq]; exact Nat.zero_le _⟩
  · have hblobs : b'.blobs site = { b.blobs site with staged := fun _ => none } := by
      refine BlobState.ext (funext fun d => hfiles _) (funext fun d => ?_)
      show (b'.staged.find (blobKey d)).bind _ = none
      rw [hnone, Option.bind_none]
    rw [hblobs]
    exact .restarted
  · rw [hnone] at htmp
    cases htmp

/-- Every call follows its abstract event. -/
theorem follows_step {label : BlobEvent} (h : b.Given site) (hseq : b.seq.toNat + 1 < 2 ^ 64)
    (hstep : Step site H b label b') : Follows site H b label b' := by
  cases hstep with
  | putTemp => exact follows_put_temp h hseq
  | commit => exact follows_commit h
  | remove => exact follows_remove h
  | @read d =>
      refine post_outcome (P := fun result b' => Follows site H b (.read d result) b') ?_
      refine post_read.mono (fun found b' hb' => ?_) fun e b' hb' => ?_
      · obtain ⟨hfiles, content, refused, hcontent, rfl⟩ := hb'
        exact follows_of_same_files h hfiles (.read hcontent)
      · obtain ⟨hfiles, rfl⟩ := hb'
        exact follows_of_same_files h hfiles .notRead
  | @verify d expected =>
      refine post_outcome (P := fun result b' => Follows site H b (.verify d expected result) b') ?_
      refine post_verify.mono (fun answer b' hb' => ?_) fun _ _ hthrown => hthrown.elim
      obtain ⟨hfiles, hverified⟩ := hb'
      refine follows_of_same_files h hfiles ?_
      by_cases hanswer : answer = .verified
      · obtain ⟨content, part, hpart, hcontent, hhash⟩ := hverified hanswer
        rw [hanswer]
        exact .verified hcontent hpart hhash
      · exact .notVerified hanswer
  | restart =>
      have hkept := @construct_preserves site { tree := b.tree, calls := b.calls } _
        ⟨⟨rfl, rfl⟩, fun _ => rfl⟩
      exact post_final (P := fun _ b' => Follows site H b .restart b')
        (hkept.mono (fun _ _ => follows_restart) fun _ _ => follows_restart)

/-- Whatever the system refuses, and however often the process ends, the backend takes the steps of
a store of blobs, as long as the numbers of the temporary files do not wrap around. So every blob it
keeps was there at the start or is all that some call of `put_temp` wrote. -/
theorem local_backend_refines {tree : FileTree Bytes UInt8} {labels : List BlobEvent}
    (hrun : Run (Step site H) { tree } labels b) (hfew : labels.length < 2 ^ 64) :
    Run (BlobState.Step H) (blobs site { tree }) labels (b.blobs site) ∧
      BlobState.From (blobs site { tree }) labels (b.blobs site) := by
  have hfollows : labels.length < 2 ^ 64 →
      Run (BlobState.Step H) (blobs site { tree }) labels (b.blobs site) ∧ b.Given site ∧
        b.seq.toNat ≤ labels.length := by
    induction hrun with
    | start => exact fun _ => ⟨.start, nofun, Nat.zero_le _⟩
    | @extend labels b b' label _ hlast ih =>
        intro hfew
        rw [List.length_append, List.length_singleton] at hfew
        obtain ⟨hrun, hgiven, hseq⟩ := ih (by omega) (by omega)
        have hstep := follows_step hgiven (by omega) hlast
        have hseq' := hstep.seq
        rw [List.length_append, List.length_singleton]
        exact ⟨hrun.extend hstep.step, hstep.given, by omega⟩
  obtain ⟨hrun', -⟩ := hfollows hfew
  exact ⟨hrun', BlobState.from_of_run (fun _ => rfl) hrun'⟩

/-- A site on which the second temporary file is written in part. -/
def sampleSite : LocalSite where
  platform := .posix
  root := { components := [ascii ['r']] }
  refuses call n := if call = .write ∧ 11 < n then some 1 else none
  slash_separates := rfl
  separators _ hc := .inl (eq_of_beq hc)

/-- A blob is committed, and the process ends when half of another content is written. -/
theorem local_backend_refines_half_written :
    let H := StreamHash.ofFunction fun _ => .zero
    ∃ labels b, Run (Step sampleSite H) { tree := .empty } labels b ∧
      Run (BlobState.Step H) (blobs sampleSite { tree := .empty }) labels (blobs sampleSite b) ∧
      (blobs sampleSite b).objects .zero = some [1, 2] ∧
      b.tree.fileAt (sampleSite.tempLocation .zero 2) = some [3] := by
  intro H
  have hrun := (((((@Run.start _ _ (Step sampleSite H) { tree := .empty }).extend .restart).extend
    (@Step.putTemp _ _ _ .zero [1, 2])).extend (@Step.commit _ _ _ .zero)).extend
    (@Step.putTemp _ _ _ .zero [3, 4])).extend .restart
  exact ⟨_, _, hrun, (local_backend_refines hrun (by simp)).1, by decide +kernel⟩

end LocalBackend

end CheckpointStore
