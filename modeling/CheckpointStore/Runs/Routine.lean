import CheckpointStore.Runs.Registry

/-!
# Routine steps

Verification, plans, policies, saves and the like change the state in a few elementary ways, none of
which concerns what a checkpoint is. `RoutineInvariant I` lists these ways, after `LookInvariant`;
`RoutineInvariant.step` says that such steps keep `I`. It leaves the operations that matter to an
invariant: those that publish, retire, restore, collect, create a family, reset the authority or
restart.
-/

namespace CheckpointStore

open Foundation Foundation.Procedure

variable {W : Type}

/-- The step is one of the routine ones. -/
def Event.routine : Event W → Bool
  | .rehash | .outside => true
  | .call op _ => match op with
    | .makeFullDescriptor _ _ _ _ | .setRetentionPolicy _ | .gcPlan | .verifyCheckpoint _
    | .verifyChunk _ _ | .planRestore _ _ | .setAuthorityBoot _ | .saveState _ => true
    | _ => false

/-- A property that no elementary change of a routine step destroys. -/
structure RoutineInvariant (I : System W → Prop) : Prop extends LookInvariant I where
  clocked : ∀ {s : System W} (n : Nat), I s → I { s with ticks := n }
  policySet : ∀ {s : System W} (policy : RetentionPolicy), I s →
    I { s with store := policyStored policy s.store }
  bootSet : ∀ {s : System W} (boot : WorkerBootId), I s →
    I { s with store := bootStored boot s.store }
  gcPlanned : ∀ {s : System W} (gc : GcState), I s →
    I { s with store := { s.store with gc := gc } }
  filed : ∀ {s : System W} (files : UnorderedMap Bytes Bytes), I s → I { s with files := files }
  rehashed : ∀ {s : System W} {store : Store W}, Rehashed s.store store → I s →
    I { s with store := store }
  outside : ∀ {s : System W} (w : W), I s → I { s with world := w }

namespace RoutineInvariant

variable {I : System W → Prop} (h : RoutineInvariant I) {env : Env}

include h

/-- A descriptor draws an identity. -/
theorem preserves_make_full_descriptor (family : CheckpointFamilyId) (owner : OwnerId)
    (logicalSize : UInt64) (durability : DurabilityClass) :
    Preserves I (makeFullDescriptor env family owner logicalSize durability) := by
  intro s hs
  refine (post_make_full_descriptor env family owner logicalSize durability s).mono
    (fun _ _ hs' => ?_) (fun _ _ hs' => hs' ▸ hs)
  rw [hs'.2]
  exact h.clocked _ (h.drawn hs)

theorem preserves_gc_plan : Preserves I (gcPlan env) := by
  intro s hs
  refine (post_gc_plan env s).mono (fun _ _ hs' => ?_) (fun _ _ hs' => hs'.elim)
  cases hs' with
  | intro epoch _ _ => exact h.clocked _ (h.gcPlanned _ (h.drawn hs))

/-- Saving changes files only. -/
theorem preserves_save_state (answers : WriteAnswers) : Preserves I (saveState env answers) := by
  intro s hs
  refine (post_save_state answers s).mono (fun _ _ hs' => ?_) (fun _ _ hs' => ?_)
  · obtain ⟨files, rfl⟩ := hs'
    exact h.filed files hs
  · obtain ⟨files, rfl⟩ := hs'
    exact h.filed files hs

/-- Routine steps keep the invariant. -/
theorem step {R : W → W → Prop} {s s' : System W} {e : Event W} (hstep : Step env R s e s')
    (hroutine : e.routine = true) (hs : I s) : I s' := by
  have hfinal : ∀ {α : Type} {m : Proc (System W) α}, Preserves I m → I (finalState (m s)) :=
    fun hm => post_final (P := fun _ s' => I s') (hm s hs)
  cases hstep with
  | rehash hrehashed => exact h.rehashed hrehashed hs
  | outside => exact h.outside _ hs
  | call op =>
      cases op with
      | makeFullDescriptor family owner logicalSize durability =>
          exact hfinal (preserves_map (h.preserves_make_full_descriptor _ _ _ _) _)
      | setRetentionPolicy policy => exact h.policySet policy hs
      | gcPlan => exact hfinal (preserves_map h.preserves_gc_plan _)
      | verifyCheckpoint id => exact hfinal (preserves_map (h.preserves_verify_checkpoint env id) _)
      | verifyChunk id chunk => exact hfinal (preserves_map (h.preserves_verify_chunk id chunk) _)
      | planRestore id priority =>
          exact hfinal (preserves_map (h.preserves_plan_restore id priority) _)
      | setAuthorityBoot boot => exact h.bootSet boot hs
      | saveState answers => exact hfinal (h.preserves_save_state answers)
      | createFamily | publish | retire | gcRun | restore | resetAuthority | reopen =>
          simp [Event.routine] at hroutine

end RoutineInvariant

end CheckpointStore
