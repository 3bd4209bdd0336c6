import CheckpointStore.Runs.Operations

/-!
# Stopping in the middle of a save

`atomic_write_file` as the sequence of its calls to the file system. A process that stops, or is
stopped, has made the first few of them (`filesAfter`); when it makes all of them, the files are
those of `atomicWriteFile` (`final_files_atomic_write`). `stopped_save_iff` says at which points
the state path still has the old file or already has the new one: the target is removed before
the rename, so not at all of them.
-/

namespace CheckpointStore

open Foundation Foundation.Procedure Foundation.UnorderedMap

variable {W : Type}

/-- The changes `atomic_write_file` makes to the file system, one call at a time. -/
inductive FileStep where
  /-- The temporary file is created, or emptied. -/
  | openTemp
  /-- This many bytes of the data have reached the temporary file. -/
  | writeTemp (written : Nat)
  | removeTemp
  | removeTarget
  | rename
  deriving DecidableEq

/-- The files after a step; `rename` replaces its target at once. -/
def FileStep.apply (path tmp data : Bytes) (files : UnorderedMap Bytes Bytes) :
    FileStep → UnorderedMap Bytes Bytes
  | .openTemp => files.assign tmp []
  | .writeTemp written => files.assign tmp (data.take written)
  | .removeTemp => files.erase tmp
  | .removeTarget => files.erase path
  | .rename =>
      match files.find tmp with
      | none => files
      | some content => (files.erase tmp).assign path content

/-- The steps until the temporary file is complete; `progress` are the lengths it goes through. -/
def writingSteps (progress : List Nat) (data : Bytes) : List FileStep :=
  .openTemp :: progress.map .writeTemp ++ [.writeTemp data.length]

/-- The steps after that. -/
def replacingSteps (answers : WriteAnswers) (targetExists : Bool) : List FileStep :=
  (if targetExists ∧ answers.removed then [.removeTarget] else []) ++
    if answers.renamed then [.rename] else []

/-- The steps of one `atomic_write_file`, as the file system answers its calls. -/
def atomicWriteSteps (answers : WriteAnswers) (progress : List Nat) (path data : Bytes)
    (files : UnorderedMap Bytes Bytes) : List FileStep :=
  if answers.opened = false then []
  else if answers.written = false then .openTemp :: progress.map .writeTemp ++ [.removeTemp]
  else writingSteps progress data ++ replacingSteps answers (files.contains path)

/-- The files after some steps. -/
def filesAfter (path tmp data : Bytes) (steps : List FileStep) (files : UnorderedMap Bytes Bytes) :
    UnorderedMap Bytes Bytes :=
  steps.foldl (fun files step => step.apply path tmp data files) files

theorem temp_path_ne (path stamp : Bytes) : tempPath path stamp ≠ path := by
  intro h
  have hlength := congrArg List.length h
  simp [tempPath, ascii] at hlength

section Steps

variable {path tmp data old : Bytes} {files : UnorderedMap Bytes Bytes}

/-- Steps that only touch the temporary file leave other files alone. -/
theorem find_other_after {other : Bytes} (hne : tmp ≠ other) {steps : List FileStep}
    (htemp : ∀ step ∈ steps, step ≠ .removeTarget ∧ step ≠ .rename) :
    (filesAfter path tmp data steps files).find other = files.find other := by
  induction steps generalizing files with
  | nil => rfl
  | cons step rest ih =>
      have hrest := @ih (step.apply path tmp data files)
        fun step' hin => htemp step' (List.mem_cons_of_mem _ hin)
      refine hrest.trans ?_
      cases step with
      | openTemp => exact (find_assign _ _ _ _).trans (if_neg hne.symm)
      | writeTemp => exact (find_assign _ _ _ _).trans (if_neg hne.symm)
      | removeTemp => exact (find_erase _ _ _).trans (if_neg hne.symm)
      | removeTarget => exact absurd rfl (htemp _ (by simp)).1
      | rename => exact absurd rfl (htemp _ (by simp)).2

theorem files_after_append (steps steps' : List FileStep) :
    filesAfter path tmp data (steps ++ steps') files =
      filesAfter path tmp data steps' (filesAfter path tmp data steps files) :=
  List.foldl_append

theorem mem_opening_steps {progress : List Nat} {step : FileStep}
    (h : step ∈ .openTemp :: progress.map .writeTemp) : step ≠ .removeTarget ∧ step ≠ .rename := by
  rcases List.mem_cons.mp h with rfl | hin
  · simp
  · obtain ⟨n, _, rfl⟩ := List.mem_map.mp hin
    simp

theorem mem_writing_steps {progress : List Nat} {step : FileStep}
    (h : step ∈ writingSteps progress data) : step ≠ .removeTarget ∧ step ≠ .rename := by
  rcases List.mem_append.mp h with hin | hin
  · exact mem_opening_steps hin
  · simp [List.mem_singleton.mp hin]

/-- What is written before the target is touched: the temporary file, complete. -/
theorem find_after_writing (progress : List Nat) (other : Bytes) :
    (filesAfter path tmp data (writingSteps progress data) files).find other =
      if other = tmp then some data else files.find other := by
  by_cases hother : other = tmp
  · rw [if_pos hother, hother, writingSteps, files_after_append]
    simp [filesAfter, FileStep.apply]
  · rw [if_neg hother]
    exact find_other_after (Ne.symm hother) fun step hin => mem_writing_steps hin

/-- The removal of the target; without a target there is nothing to remove. -/
theorem find_after_removing {targetExists removed : Bool}
    (hmissing : targetExists = false → files.find path = none) (other : Bytes) :
    (filesAfter path tmp data (if targetExists ∧ removed then [.removeTarget] else [])
      files).find other = (if removed then files.erase path else files).find other := by
  cases removed with
  | false => simp [filesAfter]
  | true =>
      cases targetExists with
      | true => rfl
      | false =>
          show files.find other = (files.erase path).find other
          rw [find_erase]
          split
          · next hother => rw [hother, hmissing rfl]
          · rfl

/-- The files just before the rename. -/
theorem find_before_rename (hne : tmp ≠ path) (progress : List Nat) (removed : Bool)
    (other : Bytes) :
    (filesAfter path tmp data (if files.contains path ∧ removed then [.removeTarget] else [])
      (filesAfter path tmp data (writingSteps progress data) files)).find other =
      (if removed then (files.assign tmp data).erase path else files.assign tmp data).find
        other := by
  have hmissing : files.contains path = false →
      (filesAfter path tmp data (writingSteps progress data) files).find path = none :=
    fun hexists => by
      rw [find_after_writing, if_neg hne.symm, contains_eq_false_iff.mp hexists]
  rw [find_after_removing hmissing]
  cases removed with
  | false => exact (find_after_writing _ _).trans (find_assign _ _ _ _).symm
  | true =>
      show (erase path _).find other = ((files.assign tmp data).erase path).find other
      rw [find_erase, find_erase, find_after_writing, find_assign]

/-- Removing the target leaves the temporary file. -/
theorem find_temp_before_rename (hne : tmp ≠ path) (removed : Bool) :
    (if removed then (files.assign tmp data).erase path else files.assign tmp data).find tmp =
      some data := by
  cases removed with
  | false => exact (find_assign _ _ _ _).trans (if_pos rfl)
  | true =>
      show ((files.assign tmp data).erase path).find tmp = some data
      rw [find_erase, if_neg hne, find_assign, if_pos rfl]

theorem files_after_rename (htemp : files.find tmp = some data) :
    filesAfter path tmp data [.rename] files = (files.erase tmp).assign path data := by
  simp [filesAfter, FileStep.apply, htemp]

/-- The path has the complete old file or the complete new one. -/
def HoldsEither (path old data : Bytes) (files : UnorderedMap Bytes Bytes) : Prop :=
  files.find path = some old ∨ files.find path = some data

/-- The only point at which the target is missing is between its removal and the rename. -/
theorem holds_either_replacing (hne : tmp ≠ path) (hold : files.find path = some old)
    (htemp : files.find tmp = some data) (answers : WriteAnswers) (j : Nat) :
    HoldsEither path old data
        (filesAfter path tmp data ((replacingSteps answers true).take j) files) ↔
      (.removeTarget ∈ (replacingSteps answers true).take j →
        .rename ∈ (replacingSteps answers true).take j) := by
  have hcases : (replacingSteps answers true).take j ∈
      [[], [.removeTarget], [.rename], [.removeTarget, .rename]] := by
    unfold replacingSteps
    rcases j with _ | _ | j <;> cases answers.removed <;> cases answers.renamed <;> simp
  unfold HoldsEither
  generalize (replacingSteps answers true).take j = done at hcases ⊢
  simp only [List.mem_cons, List.not_mem_nil, or_false] at hcases
  rcases hcases with rfl | rfl | rfl | rfl
  · exact iff_of_true (Or.inl hold) (by simp)
  · exact iff_of_false (by simp [filesAfter, FileStep.apply]) (by simp)
  · exact iff_of_true (Or.inr (by simp [filesAfter, FileStep.apply, htemp])) (by simp)
  · exact iff_of_true (Or.inr (by simp [filesAfter, FileStep.apply, htemp, hne])) (by simp)

end Steps

/-- A process that makes all the steps ends with the files of `atomicWriteFile`. -/
theorem final_files_atomic_write (answers : WriteAnswers) (progress : List Nat)
    (path data other : Bytes) (s : System W) :
    (finalState (atomicWriteFile answers path data s)).files.find other =
      (filesAfter path (tempPath path answers.stamp) data
        (atomicWriteSteps answers progress path data s.files) s.files).find other := by
  have hne := temp_path_ne path answers.stamp
  generalize htmp : tempPath path answers.stamp = tmp at hne ⊢
  refine post_final (P := fun _ (s' : System W) => s'.files.find other = _) ?_
  simp only [atomicWriteFile, modifyFiles, post_bind, post_ite, post_throw_store_error,
    post_modify, htmp, atomicWriteSteps]
  refine ⟨fun hopened => by rw [if_pos hopened]; rfl, fun hopened =>
    ⟨fun hwritten => ?_, fun hwritten => ?_⟩⟩
  · rw [if_neg hopened, if_pos hwritten, files_after_append]
    show _ = (erase tmp _).find other
    rw [find_erase, find_erase]
    by_cases hother : other = tmp
    · rw [if_pos hother, if_pos hother]
    · rw [if_neg hother, if_neg hother]
      exact (find_other_after (Ne.symm hother) fun _ hin => mem_opening_steps hin).symm
  · rw [if_neg hopened, if_neg hwritten, files_after_append]
    -- Up to the rename both sides have the same files.
    have hbefore := @find_before_rename path tmp data s.files hne progress answers.removed
    rw [replacingSteps, files_after_append]
    generalize filesAfter path tmp data (if s.files.contains path ∧ answers.removed then
      [.removeTarget] else []) _ = before at hbefore ⊢
    refine ⟨fun hrenamed => ?_, fun hrenamed => ?_⟩
    · have hsteps : ¬ answers.renamed = true := by simp [hrenamed]
      rw [if_neg hsteps]
      exact (hbefore other).symm
    · have htemp : before.find tmp = some data :=
        (hbefore tmp).trans (find_temp_before_rename hne answers.removed)
      have hsteps : answers.renamed = true := by simpa using hrenamed
      rw [if_pos hsteps, files_after_rename htemp, find_assign, find_assign, find_erase, find_erase,
        hbefore]

/-- Stopping a save. Wherever `atomic_write_file` stops, the path has the old file or the new one
exactly unless the target has been removed and the rename has not succeeded. -/
theorem stopped_save_iff {path old : Bytes} {files : UnorderedMap Bytes Bytes}
    (hold : files.find path = some old) (answers : WriteAnswers) (progress : List Nat)
    (data : Bytes) (k : Nat) :
    let done := (atomicWriteSteps answers progress path data files).take k
    HoldsEither path old data (filesAfter path (tempPath path answers.stamp) data done files) ↔
      (.removeTarget ∈ done → .rename ∈ done) := by
  intro done
  have hne := temp_path_ne path answers.stamp
  have htouches : (∀ step ∈ done, step ≠ .removeTarget ∧ step ≠ .rename) →
      (HoldsEither path old data (filesAfter path (tempPath path answers.stamp) data done files) ↔
        (.removeTarget ∈ done → .rename ∈ done)) := fun htemp =>
    iff_of_true (Or.inl ((find_other_after hne htemp).trans hold))
      fun hin => absurd rfl (htemp _ hin).1
  by_cases hopened : answers.opened = false
  · refine htouches fun step hin => ?_
    simp [done, atomicWriteSteps, hopened] at hin
  by_cases hwritten : answers.written = false
  · refine htouches fun step hin => ?_
    have hstep := List.mem_of_mem_take hin
    rw [atomicWriteSteps, if_neg hopened, if_pos hwritten, List.mem_append] at hstep
    rcases hstep with hin | hin
    · exact mem_opening_steps hin
    · simp [List.mem_singleton.mp hin]
  have hcontains : files.contains path = true := contains_iff.mpr ⟨old, hold⟩
  have hdone : done = (writingSteps progress data).take k ++
      (replacingSteps answers true).take (k - (writingSteps progress data).length) := by
    simp only [done, atomicWriteSteps, if_neg hopened, if_neg hwritten, hcontains,
      List.take_append]
  have hwriting : ∀ step ∈ (writingSteps progress data).take k,
      step ≠ .removeTarget ∧ step ≠ .rename :=
    fun step hin => mem_writing_steps (List.mem_of_mem_take hin)
  rcases Nat.lt_or_ge k (writingSteps progress data).length with hlt | hge
  · -- Stopped while the temporary file is being written.
    rw [Nat.sub_eq_zero_of_le (Nat.le_of_lt hlt), List.take_zero, List.append_nil] at hdone
    exact htouches (hdone ▸ hwriting)
  · rw [List.take_of_length_le hge] at hdone hwriting
    have hmem : ∀ step, step = .removeTarget ∨ step = .rename → (step ∈ done ↔ step ∈
        (replacingSteps answers true).take (k - (writingSteps progress data).length)) := by
      intro step hstep
      rw [hdone, List.mem_append]
      refine or_iff_right fun hin => ?_
      obtain ⟨htarget, hrename⟩ := hwriting step hin
      exact hstep.elim htarget hrename
    rw [hmem _ (Or.inl rfl), hmem _ (Or.inr rfl), hdone, files_after_append]
    refine holds_either_replacing hne ?_ ?_ answers _
    · rw [find_after_writing, if_neg (Ne.symm hne), hold]
    · rw [find_after_writing, if_pos rfl]

/-- The temporary file is half written. -/
theorem stopped_save_iff_half_written :
    HoldsEither [1] [5] [6, 7]
      (filesAfter [1] (tempPath [1] []) [6, 7]
        ((atomicWriteSteps {} [1] [1] [6, 7] (assign [1] [5] ∅)).take 2) (assign [1] [5] ∅)) :=
  (stopped_save_iff
    (show (assign [1] [5] ∅ : UnorderedMap Bytes Bytes).find [1] = some [5] from rfl)
    {} [1] [6, 7] 2).mpr (by decide)

/-- All calls succeed, but the process stops after the removal; or the rename fails. In both cases
there was a file and there is none. The same happens to the file of a store. -/
theorem stopped_save_loses_file :
    let files : UnorderedMap Bytes Bytes := assign [1] [5] ∅
    let tmp := tempPath [1] []
    (filesAfter [1] tmp [6] ((atomicWriteSteps {} [] [1] [6] files).take 3) files).find [1] = none ∧
      (filesAfter [1] tmp [6] (atomicWriteSteps { renamed := false } [] [1] [6] files) files).find
        [1] = none ∧
      let s := sampleRun sha256Hash [] [.createFamily, .saveState {}]
      (s.files.find s.store.options.statePath).isSome = true ∧
        (finalState (saveState (sampleEnv sha256Hash) { renamed := false } s)).files.find
          s.store.options.statePath = none := by
  decide +kernel

end CheckpointStore
