import CheckpointStore.Foundation.Procedure

/-!
# Programs of calls

An `Attempt` is a procedure that can also go wrong, which is not an exception but the absence of any
result. It *simulates* an `EStateM` procedure on the states of an invariant if there it does not go
wrong and ends as the procedure does (`Simulates`), and this is preserved by sequencing
(`simulates_bind`).

A `Program` makes calls one after the other, where the next call may depend on the answers so far.
What a call does is left open. `Program.run` performs the calls by procedures, `Program.exec` by
attempts, and if every call is simulated then so is the program (`exec_simulates`). `Performs` says
of a procedure that it is such a program, so that it reaches its state by the given calls only.
-/

namespace Foundation.Procedure

variable {ε σ τ ρ α β : Type}

/-! ## Attempts -/

/-- A procedure that goes wrong where it has no result. -/
def Attempt (ε τ α : Type) : Type := τ → Option (EStateM.Result ε τ α)

namespace Attempt

/-- Fail with an exception. -/
def throw (e : ε) : Attempt ε τ α := fun t => some (.error e t)

/-- Run the second attempt on the outcome of the first; a stop stays one. -/
protected def bind (m : Attempt ε τ α) (f : α → Attempt ε τ β) : Attempt ε τ β := fun t =>
  match m t with
  | none => none
  | some (.ok a t') => f a t'
  | some (.error e t') => some (.error e t')

instance : Monad (Attempt ε τ) where
  pure a t := some (.ok a t)
  bind := Attempt.bind

/-- A sequence whose first part returns. -/
theorem bind_of_ok {m : Attempt ε τ α} {t t' : τ} {a : α} (h : m t = some (.ok a t'))
    (f : α → Attempt ε τ β) : (m >>= f) t = f a t' := by
  show Attempt.bind m f t = _
  rw [Attempt.bind, h]

/-- A sequence whose first part throws. -/
theorem bind_of_error {m : Attempt ε τ α} {t t' : τ} {e : ε} (h : m t = some (.error e t'))
    (f : α → Attempt ε τ β) : (m >>= f) t = some (.error e t') := by
  show Attempt.bind m f t = _
  rw [Attempt.bind, h]

/-- A loop whose rounds only look at the state. -/
theorem foldl_m_eq {f : β → α → Attempt ε τ β} {g : β → α → β} {l : List α} {t : τ}
    (h : ∀ b, ∀ a ∈ l, f b a t = some (.ok (g b a) t)) (b : β) :
    l.foldlM f b t = some (.ok (l.foldl g b) t) := by
  induction l generalizing b with
  | nil => rfl
  | cons a rest ih =>
      rw [List.foldlM_cons, bind_of_ok (h b a List.mem_cons_self), List.foldl_cons]
      exact ih (fun b a hin => h b a (List.mem_cons_of_mem _ hin)) (g b a)

end Attempt

/-- Change the state a run ends in. -/
def mapState (view : τ → σ) : EStateM.Result ε τ α → EStateM.Result ε σ α
  | .ok a t => .ok a (view t)
  | .error e t => .error e (view t)

/-- From the states of the invariant `I` the attempt ends as the procedure does, in a state of the
invariant, and throws nothing but what satisfies `E`. -/
def Simulates (view : τ → σ) (I : τ → Prop) (E : ε → Prop) (m' : Attempt ε τ α)
    (m : EStateM ε σ α) : Prop :=
  ∀ t, I t → ∃ r, m' t = some r ∧ mapState view r = m (view t) ∧ I (finalState r) ∧
    ∀ e, thrown r = some e → E e

section Simulation

variable {view : τ → σ} {I : τ → Prop} {E : ε → Prop}

theorem simulates_pure (a : α) : Simulates view I E (pure a) (pure a) :=
  fun t ht => ⟨.ok a t, rfl, rfl, ht, fun _ h => by cases h⟩

/-- The same exception on both sides. -/
theorem simulates_throw {e : ε} (he : E e) :
    Simulates view I E (Attempt.throw e : Attempt ε τ α) (throw e) :=
  fun t ht => ⟨.error e t, rfl, rfl, ht, fun _ h => by cases h; exact he⟩

/-- Sequences simulate part by part. -/
theorem simulates_bind {m' : Attempt ε τ α} {m : EStateM ε σ α} {f' : α → Attempt ε τ β}
    {f : α → EStateM ε σ β} (hm : Simulates view I E m' m)
    (hf : ∀ a, Simulates view I E (f' a) (f a)) : Simulates view I E (m' >>= f') (m >>= f) := by
  intro t ht
  obtain ⟨r, hrun, hview, hr, hthrown⟩ := hm t ht
  show ∃ r', _ ∧ mapState view r' = EStateM.bind m f (view t) ∧ _
  rw [EStateM.bind, ← hview]
  cases r with
  | ok a t' =>
      obtain ⟨r', hrun', hview', hr', hthrown'⟩ := hf a t' hr
      exact ⟨r', by rw [Attempt.bind_of_ok hrun, hrun'], hview', hr', hthrown'⟩
  | error e t' => exact ⟨.error e t', Attempt.bind_of_error hrun f', rfl, hr, hthrown⟩

end Simulation

/-! ## Programs -/

variable {C D : Type} {R : C → Type} {S : D → Type}

/-- A program that makes calls `c`, each answered by an `R c`. -/
inductive Program (R : C → Type) (ε α : Type) : Type where
  | done (a : α)
  | fail (e : ε)
  | call (c : C) (next : R c → Program R ε α)

namespace Program

/-- One program after the other. -/
def andThen (p : Program R ε α) (f : α → Program R ε β) : Program R ε β :=
  match p with
  | .done a => f a
  | .fail e => .fail e
  | .call c next => .call c fun a => (next a).andThen f

/-- Perform the calls by procedures. -/
def run (handle : ∀ c, EStateM ε σ (R c)) : Program R ε α → EStateM ε σ α
  | .done a => pure a
  | .fail e => throw e
  | .call c next => do
      let a ← handle c
      (next a).run handle

/-- Perform the calls by attempts. -/
def exec (handle : ∀ c, Attempt ε τ (R c)) : Program R ε α → Attempt ε τ α
  | .done a => pure a
  | .fail e => Attempt.throw e
  | .call c next => do
      let a ← handle c
      (next a).exec handle

/-- The exceptions that a program throws of its own satisfy `E`. -/
def FailsWith (E : ε → Prop) : Program R ε α → Prop
  | .done _ => True
  | .fail e => E e
  | .call _ next => ∀ a, (next a).FailsWith E

/-- A sequence of programs runs one after the other. -/
theorem run_and_then (handle : ∀ c, EStateM ε σ (R c)) (p : Program R ε α)
    (f : α → Program R ε β) :
    (p.andThen f).run handle = p.run handle >>= fun a => (f a).run handle := by
  induction p with
  | done a => rfl
  | fail e => rfl
  | call c next ih => simp only [andThen, run, ih, bind_assoc]

/-- A sequence fails with what its parts fail with. -/
theorem fails_with_and_then {E : ε → Prop} {p : Program R ε α} {f : α → Program R ε β}
    (hp : p.FailsWith E) (hf : ∀ a, (f a).FailsWith E) : (p.andThen f).FailsWith E := by
  induction p with
  | done a => exact hf a
  | fail e => exact hp
  | call c next ih => exact fun a => ih a (hp a)

/-- If every call is simulated, so is the program. -/
theorem exec_simulates {view : τ → σ} {I : τ → Prop} {E : ε → Prop}
    {handle : ∀ c, EStateM ε σ (R c)} {handle' : ∀ c, Attempt ε τ (R c)}
    (h : ∀ c, Simulates view I E (handle' c) (handle c)) {p : Program R ε α}
    (hp : p.FailsWith E) : Simulates view I E (p.exec handle') (p.run handle) := by
  induction p with
  | done a => exact simulates_pure a
  | fail e => exact simulates_throw hp
  | call c next ih => exact simulates_bind (h c) fun a => ih a (hp a)

end Program

/-- The procedure is a program of the given calls, whose own exceptions satisfy `E`. -/
def Performs (handle : ∀ c, EStateM ε σ (R c)) (E : ε → Prop) (m : EStateM ε σ α) : Prop :=
  ∃ p : Program R ε α, p.FailsWith E ∧ p.run handle = m

section Performing

variable {handle : ∀ c, EStateM ε σ (R c)} {E : ε → Prop}

theorem performs_pure (a : α) : Performs handle E (pure a) := ⟨.done a, trivial, rfl⟩

theorem performs_throw {e : ε} (he : E e) : Performs handle E (throw e : EStateM ε σ α) :=
  ⟨.fail e, he, rfl⟩

/-- A single call is a program. -/
theorem performs_call (c : C) : Performs handle E (handle c) :=
  ⟨.call c .done, fun _ => trivial, bind_pure (handle c)⟩

/-- A sequence of programs is a program. -/
theorem performs_bind {m : EStateM ε σ α} {f : α → EStateM ε σ β} (hm : Performs handle E m)
    (hf : ∀ a, Performs handle E (f a)) : Performs handle E (m >>= f) := by
  obtain ⟨p, hp, hrun⟩ := hm
  obtain ⟨q, hq⟩ := Classical.axiomOfChoice hf
  refine ⟨p.andThen q, Program.fails_with_and_then hp fun a => (hq a).1, ?_⟩
  rw [Program.run_and_then, hrun]
  exact congrArg _ (funext fun a => (hq a).2)

/-- A choice between programs is a program. -/
theorem performs_ite {c : Prop} [Decidable c] {m m' : EStateM ε σ α} (h : Performs handle E m)
    (h' : Performs handle E m') : Performs handle E (if c then m else m') := by
  split
  · exact h
  · exact h'

/-- A program on a component of the state is a program on the state, if its calls are. -/
theorem performs_zoom {get : ρ → σ} {set : σ → ρ → ρ} {handle' : ∀ d, EStateM ε ρ (S d)}
    (hsame : ∀ s, set (get s) s = s) (hget : ∀ t s, get (set t s) = t)
    (hset : ∀ t t' s, set t' (set t s) = set t' s)
    (hcalls : ∀ c, Performs handle' E (zoom get set (handle c))) {m : EStateM ε σ α}
    (hm : Performs handle E m) : Performs handle' E (zoom get set m) := by
  obtain ⟨p, hp, rfl⟩ := hm
  induction p with
  | done a =>
      have hzoom : zoom get set (pure a : EStateM ε σ α) = pure a := by
        funext s
        exact congrArg (EStateM.Result.ok a) (hsame s)
      exact hzoom ▸ performs_pure a
  | fail e =>
      have hzoom : zoom get set (throw e : EStateM ε σ α) = throw e := by
        funext s
        exact congrArg (EStateM.Result.error e) (hsame s)
      exact hzoom ▸ performs_throw hp
  | call c next ih =>
      have hzoom : zoom get set ((Program.call c next).run handle) =
          zoom get set (handle c) >>= fun a => zoom get set ((next a).run handle) := by
        funext s
        show zoom get set (EStateM.bind _ _) s = EStateM.bind _ _ s
        simp only [zoom, EStateM.bind]
        cases handle c (get s) with
        | ok a t => simp only [hget, hset]
        | error e t => rfl
      rw [hzoom]
      exact performs_bind (hcalls c) fun a => ih a (hp a)

end Performing

end Foundation.Procedure
