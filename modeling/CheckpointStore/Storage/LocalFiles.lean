import CheckpointStore.Storage.LocalBackend

/-!
# What the local backend leaves on the file system

For each method of `LocalBackend` and any answers of the system, the files after a call with the key
of a blob, whether it returned or threw. A method that fails on its way may leave a part of a
temporary file (`post_put_temp`), and `commit` may lose the object it replaces
(`post_replace_file`).
-/

namespace CheckpointStore

open Foundation Foundation.Procedure

/-! ## Places -/

namespace LocalSite

variable (site : LocalSite)

/-- Where a blob is kept. -/
def blobLocation (d : Digest) : List Bytes := site.root.location ++ blobComponents d

/-- Where a blob is staged. -/
def tempLocation (d : Digest) (n : UInt64) : List Bytes :=
  site.root.location ++ [ascii ['t', 'e', 'm', 'p'], LocalBackend.tempName (blobKey d) n]

variable {site}

/-- Two digests have two files. -/
theorem blob_location_inj {d d' : Digest} (h : site.blobLocation d = site.blobLocation d') :
    d = d' := by
  have hcomponents := List.append_cancel_left h
  simp only [blobComponents, List.cons.injEq, and_true, true_and] at hcomponents
  exact hex_injective hcomponents.2

/-- A temporary file has one digest and one number. -/
theorem temp_location_inj {d d' : Digest} {n n' : UInt64}
    (h : site.tempLocation d n = site.tempLocation d' n') : d = d' ∧ n = n' := by
  have hnames := List.append_cancel_left h
  simp only [List.cons.injEq, and_true, true_and] at hnames
  exact LocalBackend.temp_name_inj hnames

/-- A temporary file is no final one. -/
theorem temp_location_ne_blob {d d' : Digest} {n : UInt64} :
    site.tempLocation d n ≠ site.blobLocation d' := by
  intro h
  have hlength := congrArg List.length (List.append_cancel_left h)
  simp [blobComponents] at hlength

end LocalSite

/-! ## Calls of the system -/

namespace LocalBackend

/-- Only the number of calls differs. -/
def SameFiles (b b' : LocalBackend) : Prop :=
  b'.tree = b.tree ∧ b'.staged = b.staged ∧ b'.seq = b.seq

/-- The file system may differ. -/
def SameMemory (b b' : LocalBackend) : Prop := b'.staged = b.staged ∧ b'.seq = b.seq

variable {site : LocalSite} {α : Type} {p : PathName} {b : LocalBackend}

@[simp] theorem post_ask {call : SystemCall} {Q : Option Nat → LocalBackend → Prop}
    {E : Exn → LocalBackend → Prop} :
    Post (site.ask call) b Q E ↔
      Q (site.refuses call b.calls) { b with calls := b.calls + 1 } := Iff.rfl

@[simp] theorem post_file_exists {Q : Bool → LocalBackend → Prop}
    {E : Exn → LocalBackend → Prop} :
    Post (site.fileExists p) b Q E ↔
      Q (if (site.refuses .status b.calls).isSome then none else b.tree.find p.location).isSome
        { b with calls := b.calls + 1 } := Iff.rfl

@[simp] theorem post_open_for_reading {Q : Option Bytes → LocalBackend → Prop}
    {E : Exn → LocalBackend → Prop} :
    Post (site.openForReading p) b Q E ↔
      Q (if (site.refuses .openForReading b.calls).isSome then none else b.tree.fileAt p.location)
        { b with calls := b.calls + 1 } := Iff.rfl

/-- Opening truncates the file, or nothing happens. -/
theorem post_open_for_writing :
    Post (site.openForWriting p) b
      (fun opened b' => b.SameMemory b' ∧
        if opened then b.tree.write p.location [] = some b'.tree else b'.tree = b.tree)
      (fun _ _ => False) := by
  simp only [LocalSite.openForWriting, post_bind, post_ask, post_get]
  split
  · next htree => exact ⟨⟨rfl, rfl⟩, htree⟩
  · exact ⟨⟨rfl, rfl⟩, rfl⟩

/-- A failed write leaves a part of the data. -/
theorem post_write_file {data : Bytes} :
    Post (site.writeFile p data) b
      (fun good b' => b.SameMemory b' ∧ (b'.tree = b.tree ∧ good = false ∨
        ∃ part, b.tree.write p.location part = some b'.tree ∧ (good = true → part = data)))
      (fun _ _ => False) := by
  simp only [LocalSite.writeFile, post_bind, post_ask, post_get]
  split
  · exact ⟨⟨rfl, rfl⟩, .inl ⟨rfl, rfl⟩⟩
  · next tree htree =>
      refine ⟨⟨rfl, rfl⟩, .inr ⟨_, htree, fun hgood => ?_⟩⟩
      cases hrefused : site.refuses .write b.calls with
      | none => rfl
      | some k =>
          rw [hrefused] at hgood
          cases hgood

/-- Creating directories changes no file. -/
theorem post_create_directories :
    Post (site.createDirectories p) b
      (fun _ b' => b.SameMemory b' ∧ ∀ p, b'.tree.fileAt p = b.tree.fileAt p)
      (fun _ _ => False) := by
  simp only [LocalSite.createDirectories, post_bind, post_ask, post_get]
  split
  · exact ⟨⟨rfl, rfl⟩, fun _ => rfl⟩
  · next tree htree => exact ⟨⟨rfl, rfl⟩, FileTree.file_at_create_directories htree⟩

/-- Removing takes one file, or nothing happens. -/
theorem post_remove_file :
    Post (site.removeFile p) b
      (fun removed b' => b.SameMemory b' ∧
        if removed then b.tree.remove p.location = some b'.tree else b'.tree = b.tree)
      (fun _ _ => False) := by
  simp only [LocalSite.removeFile, post_bind, post_ask, post_get]
  split
  · next htree => exact ⟨⟨rfl, rfl⟩, htree⟩
  · exact ⟨⟨rfl, rfl⟩, rfl⟩

/-- Renaming moves one file, or nothing happens. -/
theorem post_rename_file {target : PathName} :
    Post (site.renameFile p target) b
      (fun moved b' => b.SameMemory b' ∧
        if moved then b.tree.rename p.location target.location = some b'.tree
        else b'.tree = b.tree)
      (fun _ _ => False) := by
  simp only [LocalSite.renameFile, post_bind, post_ask, post_get]
  split
  · next htree => exact ⟨⟨rfl, rfl⟩, htree⟩
  · exact ⟨⟨rfl, rfl⟩, rfl⟩

/-! ## The methods -/

variable {d : Digest} {data : Bytes}

/-- `put_temp` writes one temporary file. If it throws, that file may have a part of the data, and
what was staged before is staged still. -/
theorem post_put_temp :
    Post (putTemp site (blobKey d) data) b
      (fun _ b' => b'.seq = b.seq + 1 ∧
        b'.staged = b.staged.assign (blobKey d) (tempPathOf site (blobKey d) (b.seq + 1)) ∧
        ∀ p, b'.tree.fileAt p =
          if p = site.tempLocation d (b.seq + 1) then some data else b.tree.fileAt p)
      (fun _ b' => b'.seq = b.seq + 1 ∧ b'.staged = b.staged ∧
        ∀ p, b'.tree.fileAt p = b.tree.fileAt p ∨
          p = site.tempLocation d (b.seq + 1) ∧ b'.tree.fileAt p ≠ none) := by
  have htemp : (tempPathOf site (blobKey d) (b.seq + 1)).location =
      site.tempLocation d (b.seq + 1) := temp_location d _
  simp only [putTemp, LocalSite.physical_path_blob, fromExcept, tempPath, blob_key_accepted,
    if_true, post_bind, post_pure, post_modify, post_get]
  refine post_open_for_writing.mono (fun opened b₁ h₁ => ?_) fun _ _ h => h.elim
  obtain ⟨⟨hstaged₁, hseq₁⟩, htree₁⟩ := h₁
  cases opened with
  | false =>
      refine ⟨hseq₁, hstaged₁, fun p => .inl ?_⟩
      rw [show b₁.tree = b.tree from htree₁]
  | true =>
      simp only [if_true] at htree₁
      simp only [Bool.not_true, Bool.false_eq_true, if_false, post_bind]
      refine post_write_file.mono (fun good b₂ h₂ => ?_) fun _ _ h => h.elim
      obtain ⟨⟨hstaged₂, hseq₂⟩, htree₂⟩ := h₂
      -- the file is there since it was opened
      have hopened := FileTree.file_at_write htree₁
      rw [htemp] at hopened
      rcases htree₂ with ⟨htree₂, rfl⟩ | ⟨part, htree₂, hpart⟩
      · refine ⟨hseq₂.trans hseq₁, hstaged₂.trans hstaged₁, fun p => ?_⟩
        rw [htree₂, hopened p]
        split
        · next hp => exact .inr ⟨hp, Option.some_ne_none _⟩
        · exact .inl rfl
      · have hwritten : ∀ p, b₂.tree.fileAt p =
            if p = site.tempLocation d (b.seq + 1) then some part else b.tree.fileAt p := by
          intro p
          rw [FileTree.file_at_write htree₂, htemp]
          split
          · rfl
          · next hp => rw [hopened p, if_neg hp]
        cases good with
        | false =>
            refine ⟨hseq₂.trans hseq₁, hstaged₂.trans hstaged₁, fun p => ?_⟩
            rw [hwritten p]
            split
            · next hp => exact .inr ⟨hp, Option.some_ne_none _⟩
            · exact .inl rfl
        | true =>
            simp only [Bool.not_true, Bool.false_eq_true, if_false, post_modify]
            rw [hpart rfl] at hwritten
            exact ⟨hseq₂.trans hseq₁, by rw [hstaged₂, hstaged₁], hwritten⟩

theorem SameMemory.trans {b b' b'' : LocalBackend} (h : b.SameMemory b')
    (h' : b'.SameMemory b'') : b.SameMemory b'' :=
  ⟨h'.1.trans h.1, h'.2.trans h.2⟩

/-- No file differs, except that the target may be gone. -/
structure Cleared (target : List Bytes) (b b' : LocalBackend) : Prop where
  memory : b.SameMemory b'
  others : ∀ p, p ≠ target → b'.tree.fileAt p = b.tree.fileAt p
  kept_or_gone : b'.tree.fileAt target = b.tree.fileAt target ∨ b'.tree.fileAt target = none

theorem Cleared.same_files {target : List Bytes} {b₁ b₂ : LocalBackend}
    (h : Cleared target b b₁) (hmemory : b₁.SameMemory b₂)
    (hfiles : ∀ p, b₂.tree.fileAt p = b₁.tree.fileAt p) : Cleared target b b₂ where
  memory := h.memory.trans hmemory
  others p hp := (hfiles p).trans (h.others p hp)
  kept_or_gone := by
    rw [hfiles]
    exact h.kept_or_gone

/-- The file is moved over the target. -/
structure Replaced (source target : List Bytes) (b b' : LocalBackend) : Prop where
  memory : b.SameMemory b'
  files : ∃ content, b.tree.fileAt source = some content ∧ ∀ p, b'.tree.fileAt p =
    if p = target then some content else if p = source then none else b.tree.fileAt p

/-- The move of a file to a target that was cleared. -/
theorem post_rename_cleared {tmp final : PathName} {b₁ : LocalBackend}
    (hne : tmp.location ≠ final.location) (hcleared : Cleared final.location b b₁) :
    Post (site.renameFile tmp final) b₁
      (fun moved b' => if moved then Replaced tmp.location final.location b b'
        else Cleared final.location b b')
      (fun _ _ => False) := by
  refine post_rename_file.mono (fun moved b₂ h₂ => ?_) fun _ _ h => h
  obtain ⟨hmemory₂, htree₂⟩ := h₂
  cases moved with
  | true =>
      obtain ⟨content, hcontent, hfiles⟩ := FileTree.file_at_rename hne htree₂
      refine ⟨hcleared.memory.trans hmemory₂, content,
        (hcleared.others _ hne).symm.trans hcontent, fun p => ?_⟩
      rw [hfiles p]
      split
      · rfl
      · next hp => rw [hcleared.others p hp]
  | false =>
      refine hcleared.same_files hmemory₂ fun p => ?_
      rw [show b₂.tree = b₁.tree from htree₂]

/-- The end of a `commit`. -/
theorem post_replace_file {tmp final : PathName} (hne : tmp.location ≠ final.location) :
    Post (replaceFile site tmp final) b
      (fun _ b' => Replaced tmp.location final.location b b')
      (fun _ b' => Cleared final.location b b') := by
  have hend : ∀ b₁ : LocalBackend, Cleared final.location b b₁ →
      Post (do
        let _ ← site.createDirectories final.parentPath
        let moved ← site.renameFile tmp final
        if moved then pure () else throwStoreError .io "commit rename failed") b₁
        (fun _ b' => Replaced tmp.location final.location b b')
        (fun _ b' => Cleared final.location b b') := by
    intro b₁ hcleared
    simp only [post_bind, post_ite, post_pure]
    refine post_create_directories.mono (fun _ b₂ h₂ => ?_) fun _ _ h => h.elim
    refine (post_rename_cleared hne (hcleared.same_files h₂.1 h₂.2)).mono
      (fun moved b₃ h₃ => ?_) fun _ _ h => h.elim
    cases moved with
    | true => exact ⟨fun _ => h₃, absurd rfl⟩
    | false => exact ⟨fun hmoved => absurd hmoved Bool.false_ne_true, fun _ => h₃⟩
  have hsame : ∀ b₁ : LocalBackend, b.SameMemory b₁ → b₁.tree = b.tree →
      Cleared final.location b b₁ := fun b₁ hmemory htree =>
    ⟨hmemory, fun _ _ => by rw [htree], .inl (by rw [htree])⟩
  unfold replaceFile
  rw [post_bind, post_file_exists]
  refine (post_ite _ _ _).mpr ⟨fun _ => ?_, fun _ => hend _ (hsame _ ⟨rfl, rfl⟩ rfl)⟩
  rw [post_bind]
  refine post_remove_file.mono (fun removed b₁ h₁ => hend b₁ ?_) fun _ _ h => h.elim
  cases removed with
  | false => exact hsame b₁ h₁.1 h₁.2
  | true =>
      have hfiles := FileTree.file_at_remove h₁.2
      exact ⟨h₁.1, fun p hp => by rw [hfiles, if_neg hp], .inr (by rw [hfiles, if_pos rfl])⟩

/-- `commit` moves the file that is staged, and then forgets it. If it throws, no file differs, or
the object it was to replace is gone. -/
theorem post_commit (hplace : ∀ tmp, b.staged.find (blobKey d) = some tmp →
      tmp.location ≠ site.blobLocation d) :
    Post (commit site (blobKey d)) b
      (fun _ b' => ∃ tmp content, b.staged.find (blobKey d) = some tmp ∧
        b.tree.fileAt tmp.location = some content ∧ b'.seq = b.seq ∧
        b'.staged = b.staged.erase (blobKey d) ∧ ∀ p, b'.tree.fileAt p =
          if p = site.blobLocation d then some content
          else if p = tmp.location then none else b.tree.fileAt p)
      (fun _ b' => Cleared (site.blobLocation d) b b') := by
  have hlocation : (site.below (blobComponents d)).location = site.blobLocation d :=
    LocalSite.blob_location d
  simp only [commit, post_bind, post_get]
  cases hstaged : b.staged.find (blobKey d) with
  | none => exact ⟨⟨rfl, rfl⟩, fun _ _ => rfl, .inl rfl⟩
  | some tmp =>
      have hne : tmp.location ≠ (site.below (blobComponents d)).location := by
        rw [hlocation]
        exact hplace tmp hstaged
      simp only [LocalSite.physical_path_blob, fromExcept, post_bind, post_pure, post_modify]
      rw [← hlocation]
      refine (post_replace_file hne).mono (fun _ b' hb' => ?_) fun _ b' hb' => hb'
      obtain ⟨⟨hmemory, hseq⟩, content, hcontent, hfiles⟩ := hb'
      exact ⟨tmp, content, rfl, hcontent, hseq, by rw [hmemory], hfiles⟩

/-- `remove` changes the file of its own key only. -/
theorem post_remove :
    Post (remove site (blobKey d)) b
      (fun removed b' => b.SameMemory b' ∧ ∀ p, b'.tree.fileAt p =
        if removed = true ∧ p = site.blobLocation d then none else b.tree.fileAt p)
      (fun _ _ => False) := by
  have hlocation : (site.below (blobComponents d)).location = site.blobLocation d :=
    LocalSite.blob_location d
  simp only [remove, LocalSite.physical_path_blob, fromExcept, post_bind, post_pure]
  refine post_remove_file.mono (fun removed b' hb' => ⟨hb'.1, fun p => ?_⟩) fun _ _ h => h
  cases removed with
  | true =>
      rw [FileTree.file_at_remove hb'.2, hlocation]
      simp only [true_and]
  | false =>
      rw [show b'.tree = b.tree from hb'.2, if_neg fun hboth => Bool.false_ne_true hboth.1]

/-! ## The methods that look -/

theorem file_of_opened {refused : Option Nat} {found : Option Bytes} {content : Bytes}
    (h : (if refused.isSome then none else found) = some content) : found = some content := by
  split at h
  · cases h
  · exact h

/-- A read returns a file as it is, or with zeros where the system stopped. -/
theorem post_read :
    Post (read site (blobKey d)) b
      (fun found b' => b.SameFiles b' ∧ ∃ content refused,
        b.tree.fileAt (site.blobLocation d) = some content ∧
        found = readBuffer content refused)
      (fun e b' => b.SameFiles b' ∧ e = .error .notFound "backend object not found") := by
  have hlocation : (site.below (blobComponents d)).location = site.blobLocation d :=
    LocalSite.blob_location d
  simp only [read, LocalSite.physical_path_blob, fromExcept, post_bind, post_pure,
    post_open_for_reading, hlocation]
  generalize hopened : (if (site.refuses .openForReading b.calls).isSome then none
    else b.tree.fileAt (site.blobLocation d)) = opened
  cases opened with
  | none => exact ⟨⟨rfl, rfl, rfl⟩, rfl⟩
  | some content =>
      have hfile := file_of_opened hopened
      simp only [post_ite, post_bind, post_ask, post_pure, List.isEmpty_iff]
      refine ⟨fun hempty => ⟨⟨rfl, rfl, rfl⟩, content, none, hfile, ?_⟩,
        fun _ => ⟨⟨rfl, rfl, rfl⟩, content, _, hfile, rfl⟩⟩
      rw [readBuffer, hempty]

/-- The loop hashes a part of the file from its start. -/
theorem post_hash_loop {H : StreamHash} {bound : Nat} {hasher : H.State} {rest : Bytes}
    (hbound : rest.length < bound) :
    Post (hashLoop site H bound hasher rest) b
      (fun hasher' b' => b.SameFiles b' ∧ ∃ parts : List Bytes, parts.flatten <+: rest ∧
        hasher' = parts.foldl H.update hasher)
      (fun _ _ => False) := by
  induction bound generalizing b hasher rest with
  | zero => exact absurd hbound (Nat.not_lt_zero _)
  | succ bound ih =>
      -- the pieces of one round: none if nothing came
      have hround : ∀ got : Bytes, ∃ parts : List Bytes, parts.flatten = got ∧
          (if got.isEmpty then hasher else H.update hasher got) = parts.foldl H.update hasher := by
        intro got
        cases got with
        | nil => exact ⟨[], rfl, rfl⟩
        | cons c got => exact ⟨[c :: got], List.flatten_singleton, rfl⟩
      rw [hashLoop, post_bind, post_ask]
      cases hrefused : site.refuses .read b.calls with
      | some k =>
          obtain ⟨parts, hparts, hfold⟩ := hround ((rest.take 65536).take k)
          refine ⟨⟨rfl, rfl, rfl⟩, parts, ?_, hfold⟩
          rw [hparts]
          exact (List.take_prefix _ _).trans (List.take_prefix _ _)
      | none =>
          obtain ⟨parts, hparts, hfold⟩ := hround (rest.take 65536)
          simp only [Option.isSome_none, Bool.false_or, decide_eq_true_eq, post_ite, post_pure]
          refine ⟨fun _ => ?_, fun hfull => ?_⟩
          · exact ⟨⟨rfl, rfl, rfl⟩, parts, hparts ▸ List.take_prefix _ _, hfold⟩
          · rw [List.length_take] at hfull
            refine (ih (by rw [List.length_drop]; omega)).mono (fun hasher' b' hb' => ?_)
              fun _ _ h => h
            obtain ⟨hfiles, parts', hprefix, hfold'⟩ := hb'
            refine ⟨hfiles, parts ++ parts', ?_, ?_⟩
            · rw [List.flatten_append, hparts]
              nth_rewrite 2 [← List.take_append_drop 65536 rest]
              exact (List.prefix_append_right_inj _).mpr hprefix
            · rw [List.foldl_append, ← hfold, hfold']

/-- `verify` hashes a part of the file from its start. -/
theorem post_verify {H : StreamHash} {expected : Digest} :
    Post (verify site H (blobKey d) expected) b
      (fun answer b' => b.SameFiles b' ∧
        (answer = .verified → ∃ content part, part <+: content ∧
          b.tree.fileAt (site.blobLocation d) = some content ∧ H.sha256 part = expected))
      (fun _ _ => False) := by
  have hlocation : (site.below (blobComponents d)).location = site.blobLocation d :=
    LocalSite.blob_location d
  simp only [verify, LocalSite.physical_path_blob, fromExcept, post_bind, post_pure,
    post_file_exists, post_ite, hlocation]
  refine ⟨fun _ => ⟨⟨rfl, rfl, rfl⟩, nofun⟩, fun _ => ?_⟩
  rw [post_open_for_reading, hlocation]
  generalize hopened : (if (site.refuses .openForReading (b.calls + 1)).isSome then none
    else b.tree.fileAt (site.blobLocation d)) = opened
  cases opened with
  | none => exact ⟨⟨rfl, rfl, rfl⟩, nofun⟩
  | some content =>
      have hfile := file_of_opened hopened
      rw [post_bind]
      refine (post_hash_loop (Nat.lt_succ_self _)).mono (fun hasher b' hb' => ?_) fun _ _ h => h
      obtain ⟨hfiles, parts, hprefix, rfl⟩ := hb'
      have hhash : H.final (parts.foldl H.update H.init) = H.sha256 parts.flatten :=
        H.final_foldl parts
      rw [post_pure, hhash]
      refine ⟨hfiles, fun hverified => ⟨content, _, hprefix, hfile, ?_⟩⟩
      by_contra hother
      rw [if_neg hother] at hverified
      cases hverified

end LocalBackend

end CheckpointStore
