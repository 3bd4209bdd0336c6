import Mathlib.Logic.Relation

/-!
# Procedures that change a state and may throw

A procedure is an `EStateM ε σ α`: it reads and writes a state `σ` and ends by returning a
value or by throwing an exception, and what it wrote before a throw stays written. `Post`
states what holds after either way of ending, and its rules follow the program text, so
`simp only` with them computes the weakest precondition of a `do` block. `Keeps R` is the
special case of a relation between the states before and after; for a reflexive and
transitive `R` it composes along every construct, which proves frame conditions without
looking at the values a procedure computes.
-/

namespace Foundation.Procedure

variable {ε σ τ α β : Type}

/-- Running `m` from `s` returns some `a` in a state with `Q a`, or throws some `e` in a state
with `E e`. -/
def Post (m : EStateM ε σ α) (s : σ) (Q : α → σ → Prop) (E : ε → σ → Prop) : Prop :=
  match m s with
  | .ok a s' => Q a s'
  | .error e s' => E e s'

/-- The state a run ends in, whether it returned or threw. -/
def finalState : EStateM.Result ε σ α → σ
  | .ok _ s => s
  | .error _ s => s

/-- The exception a run ended with, if it threw. -/
def thrown : EStateM.Result ε σ α → Option ε
  | .ok _ _ => none
  | .error e _ => some e

/-- What a run returned, unless it threw. -/
def returned : EStateM.Result ε σ α → Option α
  | .ok a _ => some a
  | .error _ _ => none

/-- A call that returned a value ended in some state. -/
theorem exists_ok_of_returned {r : EStateM.Result ε σ α} {a : α} (h : returned r = some a) :
    ∃ s, r = .ok a s := by
  cases r with
  | ok a' s => exact ⟨s, by rw [Option.some.inj h]⟩
  | error e s => cases h

/-- Run a procedure on a component of the state. -/
def zoom (get : σ → τ) (set : τ → σ → σ) (m : EStateM ε τ α) : EStateM ε σ α := fun s =>
  match m (get s) with
  | .ok a t => .ok a (set t s)
  | .error e t => .error e (set t s)

/-- Return or throw what a pure computation produced. -/
def fromExcept : Except ε α → EStateM ε σ α
  | .ok a => pure a
  | .error e => throw e

@[simp] theorem final_state_ok (a : α) (s : σ) :
    finalState (.ok a s : EStateM.Result ε σ α) = s := rfl

@[simp] theorem final_state_error (e : ε) (s : σ) :
    finalState (.error e s : EStateM.Result ε σ α) = s := rfl

@[simp] theorem thrown_ok (a : α) (s : σ) :
    thrown (.ok a s : EStateM.Result ε σ α) = none := rfl

@[simp] theorem thrown_error (e : ε) (s : σ) :
    thrown (.error e s : EStateM.Result ε σ α) = some e := rfl

/-- What is done with the result does not matter for the state. -/
@[simp] theorem final_state_map {β : Type} (f : α → β) (m : EStateM ε σ α) (s : σ) :
    finalState ((f <$> m) s) = finalState (m s) := by
  show finalState (EStateM.map f m s) = finalState (m s)
  unfold EStateM.map
  cases m s <;> rfl

/-- A run that threw ended in its final state. -/
theorem eq_error_of_thrown {m : EStateM ε σ α} {s : σ} {e : ε} (h : thrown (m s) = some e) :
    m s = .error e (finalState (m s)) := by
  cases hrun : m s with
  | ok a s' => simp [hrun] at h
  | error e' s' => simpa [hrun] using h

/-- After a returning procedure the next one runs. -/
theorem bind_of_ok {m : EStateM ε σ α} {s s' : σ} {a : α} (h : m s = .ok a s')
    (f : α → EStateM ε σ β) : (m >>= f) s = f a s' := by
  show EStateM.bind m f s = f a s'
  rw [EStateM.bind, h]

/-- A throwing procedure ends what follows. -/
theorem bind_of_error {m : EStateM ε σ α} {s s' : σ} {e : ε} (h : m s = .error e s')
    (f : α → EStateM ε σ β) : (m >>= f) s = .error e s' := by
  show EStateM.bind m f s = .error e s'
  rw [EStateM.bind, h]

/-- Two procedures return when the first does and the second does from there. -/
theorem bind_ok_iff {m : EStateM ε σ α} {f : α → EStateM ε σ β} {s s' : σ} {b : β} :
    (m >>= f) s = .ok b s' ↔ ∃ a s₁, m s = .ok a s₁ ∧ f a s₁ = .ok b s' := by
  show EStateM.bind m f s = .ok b s' ↔ _
  unfold EStateM.bind
  cases m s with
  | ok a s₁ =>
      refine ⟨fun h => ⟨a, s₁, rfl, h⟩, ?_⟩
      rintro ⟨a', s₁', h₁, h⟩
      cases h₁
      exact h
  | error e s₁ => simp

/-- A constant returns itself and keeps the state. -/
theorem pure_ok_iff {a b : α} {s s' : σ} :
    (pure a : EStateM ε σ α) s = .ok b s' ↔ a = b ∧ s = s' := by
  show EStateM.Result.ok a s = .ok b s' ↔ _
  rw [EStateM.Result.ok.injEq]

/-- What the first of two procedures throws, both throw. -/
theorem thrown_bind {m : EStateM ε σ α} {s : σ} {e : ε} (h : thrown (m s) = some e)
    (f : α → EStateM ε σ β) : thrown ((m >>= f) s) = some e := by
  rw [bind_of_error (eq_error_of_thrown h), thrown_error]

/-- A postcondition applies to a returning run. -/
theorem Post.of_ok {m : EStateM ε σ α} {s s' : σ} {a : α} {Q : α → σ → Prop}
    {E : ε → σ → Prop} (h : Post m s Q E) (hrun : m s = .ok a s') : Q a s' := by
  simpa [Post, hrun] using h

/-- A postcondition applies to a throwing run. -/
theorem Post.of_error {m : EStateM ε σ α} {s s' : σ} {e : ε} {Q : α → σ → Prop}
    {E : ε → σ → Prop} (h : Post m s Q E) (hrun : m s = .error e s') : E e s' := by
  simpa [Post, hrun] using h

/-- A procedure that cannot throw and has one result returns it. -/
theorem run_of_post {m : EStateM ε σ α} {s s' : σ} {a : α}
    (h : Post m s (fun a' s'' => a' = a ∧ s'' = s') fun _ _ => False) : m s = .ok a s' := by
  unfold Post at h
  split at h
  · next hrun => rw [hrun, h.1, h.2]
  · exact h.elim

/-- A postcondition is what holds of every result. -/
theorem post_of_runs {m : EStateM ε σ α} {s : σ} {Q : α → σ → Prop} {E : ε → σ → Prop}
    (hok : ∀ a s', m s = .ok a s' → Q a s') (herror : ∀ e s', m s = .error e s' → E e s') :
    Post m s Q E := by
  unfold Post
  split
  · next a s' h => exact hok a s' h
  · next e s' h => exact herror e s' h

/-- A postcondition for both endings holds of the state a run ends in. -/
theorem post_final {m : EStateM ε σ α} {s : σ} {P : Option ε → σ → Prop}
    (h : Post m s (fun _ s' => P none s') (fun e s' => P (some e) s')) :
    P (thrown (m s)) (finalState (m s)) := by
  cases hrun : m s with
  | ok a s' => exact h.of_ok hrun
  | error e s' => exact h.of_error hrun

/-- Postconditions may be weakened. -/
theorem Post.mono {m : EStateM ε σ α} {s : σ} {Q Q' : α → σ → Prop} {E E' : ε → σ → Prop}
    (h : Post m s Q E) (hok : ∀ a s', Q a s' → Q' a s') (herror : ∀ e s', E e s' → E' e s') :
    Post m s Q' E' :=
  post_of_runs (fun a s' hrun => hok a s' (h.of_ok hrun))
    (fun e s' hrun => herror e s' (h.of_error hrun))

/-- Two postconditions of one run hold together. -/
theorem Post.and {m : EStateM ε σ α} {s : σ} {Q Q' : α → σ → Prop} {E E' : ε → σ → Prop}
    (h : Post m s Q E) (h' : Post m s Q' E') :
    Post m s (fun a s' => Q a s' ∧ Q' a s') (fun e s' => E e s' ∧ E' e s') :=
  post_of_runs (fun _ _ hrun => ⟨h.of_ok hrun, h'.of_ok hrun⟩)
    (fun _ _ hrun => ⟨h.of_error hrun, h'.of_error hrun⟩)

section Rules

variable {s : σ} {Q : β → σ → Prop} {E : ε → σ → Prop}

@[simp] theorem post_pure (b : β) : Post (pure b) s Q E ↔ Q b s := Iff.rfl

@[simp] theorem post_throw (e : ε) : Post (throw e : EStateM ε σ β) s Q E ↔ E e s := Iff.rfl

/-- A sequence is taken from its end. -/
@[simp] theorem post_bind (m : EStateM ε σ α) (f : α → EStateM ε σ β) :
    Post (m >>= f) s Q E ↔ Post m s (fun a s' => Post (f a) s' Q E) E := by
  simp only [Post, bind, EStateM.bind]
  cases m s <;> rfl

@[simp] theorem post_map (f : α → β) (m : EStateM ε σ α) :
    Post (f <$> m) s Q E ↔ Post m s (fun a s' => Q (f a) s') E := by
  simp only [Post, Functor.map, EStateM.map]
  cases m s <;> rfl

/-- A handler runs in the state in which the exception was thrown. -/
@[simp] theorem post_try_catch (m : EStateM ε σ β) (handler : ε → EStateM ε σ β) :
    Post (tryCatch m handler) s Q E ↔
      Post m s Q (fun e s' => Post (handler e) s' Q E) := by
  simp only [Post, tryCatch, tryCatchThe, MonadExceptOf.tryCatch]
  delta EStateM.tryCatch
  cases m s <;> rfl

/-- Both branches are covered, each under its condition. -/
@[simp] theorem post_ite (c : Prop) [Decidable c] (m m' : EStateM ε σ β) :
    Post (if c then m else m') s Q E ↔ (c → Post m s Q E) ∧ (¬ c → Post m' s Q E) := by
  split <;> simp_all

/-- A pure check returns or throws in the state it is called in. -/
@[simp] theorem post_from_except (x : Except ε β) :
    Post (fromExcept x) s Q E ↔ (∀ b, x = .ok b → Q b s) ∧ (∀ e, x = .error e → E e s) := by
  cases x <;> simp [fromExcept]

end Rules

section StateRules

variable {s : σ} {E : ε → σ → Prop}

@[simp] theorem post_get {Q : σ → σ → Prop} :
    Post (get : EStateM ε σ σ) s Q E ↔ Q s s := Iff.rfl

@[simp] theorem post_set {Q : PUnit → σ → Prop} (s' : σ) :
    Post (set s' : EStateM ε σ PUnit) s Q E ↔ Q ⟨⟩ s' := Iff.rfl

@[simp] theorem post_modify {Q : PUnit → σ → Prop} (f : σ → σ) :
    Post (modify f : EStateM ε σ PUnit) s Q E ↔ Q ⟨⟩ (f s) := Iff.rfl

/-- A procedure on a part changes that part. -/
@[simp] theorem post_zoom {Q : β → σ → Prop} (get : σ → τ) (set : τ → σ → σ)
    (m : EStateM ε τ β) :
    Post (zoom get set m) s Q E ↔
      Post m (get s) (fun b t => Q b (set t s)) (fun e t => E e (set t s)) := by
  simp only [Post, zoom]
  cases m (get s) <;> rfl

end StateRules

/-- A loop over a list keeps an invariant of the elements still to come. -/
theorem post_for_m {f : α → EStateM ε σ PUnit} {E : ε → σ → Prop} (I : List α → σ → Prop)
    (hstep : ∀ a rest s, I (a :: rest) s → Post (f a) s (fun _ s' => I rest s') E)
    {xs : List α} {s : σ} (h : I xs s) : Post (forM xs f) s (fun _ s' => I [] s') E := by
  induction xs generalizing s with
  | nil => exact h
  | cons a rest ih =>
      rw [List.forM_cons, post_bind]
      exact (hstep a rest s h).mono (fun _ s' hs' => ih hs') (fun _ _ he => he)

/-! ## Relations between the states before and after -/

/-- However `m` ends, its final state is related to the state it started from. -/
def Keeps (R : σ → σ → Prop) (m : EStateM ε σ α) : Prop :=
  ∀ s, R s (finalState (m s))

/-- Keeping a relation as a postcondition. -/
theorem keeps_iff_post {R : σ → σ → Prop} {m : EStateM ε σ α} :
    Keeps R m ↔ ∀ s, Post m s (fun _ s' => R s s') (fun _ s' => R s s') := by
  simp only [Keeps, Post]
  refine forall_congr' fun s => ?_
  cases m s <;> rfl

section Keeps

variable {R : σ → σ → Prop}

theorem keeps_modify {f : σ → σ} (h : ∀ s, R s (f s)) :
    Keeps R (modify f : EStateM ε σ PUnit) := h

/-- A procedure on a part keeps what its changes of the part keep. -/
theorem keeps_zoom {R' : τ → τ → Prop} {get : σ → τ} {set : τ → σ → σ} {m : EStateM ε τ α}
    (hm : Keeps R' m) (h : ∀ s t, R' (get s) t → R s (set t s)) :
    Keeps R (zoom get set m) := by
  intro s
  have hstep := hm (get s)
  simp only [zoom]
  cases hrun : m (get s) with
  | ok a t => rw [hrun] at hstep; exact h s t hstep
  | error e t => rw [hrun] at hstep; exact h s t hstep

/-- A choice keeps what both branches keep. -/
theorem keeps_ite {c : Prop} [Decidable c] {m m' : EStateM ε σ α} (h : Keeps R m)
    (h' : Keeps R m') : Keeps R (if c then m else m') := by
  split
  · exact h
  · exact h'

section Refl

variable [Std.Refl R]

theorem keeps_pure (a : α) : Keeps R (pure a : EStateM ε σ α) := fun s => refl_of R s

theorem keeps_throw (e : ε) : Keeps R (throw e : EStateM ε σ α) := fun s => refl_of R s

theorem keeps_get : Keeps R (get : EStateM ε σ σ) := fun s => refl_of R s

end Refl

section Trans

variable [IsTrans σ R]

/-- A sequence keeps a transitive relation that its parts keep. -/
theorem keeps_bind {m : EStateM ε σ α} {f : α → EStateM ε σ β} (h : Keeps R m)
    (hf : ∀ a, Keeps R (f a)) : Keeps R (m >>= f) := by
  rw [keeps_iff_post] at h ⊢
  intro s
  rw [post_bind]
  refine (h s).mono (fun a s' hs => ?_) (fun _ _ hs => hs)
  exact (keeps_iff_post.mp (hf a) s').mono (fun _ _ hs' => trans_of R hs hs')
    (fun _ _ hs' => trans_of R hs hs')

/-- So does a procedure with its handler. -/
theorem keeps_try_catch {m : EStateM ε σ α} {handler : ε → EStateM ε σ α} (h : Keeps R m)
    (hhandler : ∀ e, Keeps R (handler e)) : Keeps R (tryCatch m handler) := by
  rw [keeps_iff_post] at h ⊢
  intro s
  rw [post_try_catch]
  refine (h s).mono (fun _ _ hs => hs) (fun e s' hs => ?_)
  exact (keeps_iff_post.mp (hhandler e) s').mono (fun _ _ hs' => trans_of R hs hs')
    (fun _ _ hs' => trans_of R hs hs')

end Trans

end Keeps

/-! ## Invariants -/

/-- Started in a state with `I`, the procedure ends in one, and what it throws is an `E`. -/
def Ends (I : σ → Prop) (E : ε → Prop) (m : EStateM ε σ α) : Prop :=
  ∀ s, I s → Post m s (fun _ s' => I s') (fun e s' => E e ∧ I s')

/-- Started in a state with `I`, the procedure ends in one, however it ends. -/
def Preserves (I : σ → Prop) (m : EStateM ε σ α) : Prop :=
  ∀ s, I s → Post m s (fun _ s' => I s') (fun _ s' => I s')

/-- Without a condition on the exceptions only the invariant is left. -/
theorem preserves_iff_ends {I : σ → Prop} {m : EStateM ε σ α} :
    Preserves I m ↔ Ends I (fun _ => True) m := by
  simp only [Preserves, Ends, true_and]

section Ends

variable {I : σ → Prop} {E : ε → Prop}

/-- A procedure that ends in the invariant preserves it. -/
theorem Ends.preserves {m : EStateM ε σ α} (h : Ends I E m) : Preserves I m :=
  fun s hs => (h s hs).mono (fun _ _ hs' => hs') (fun _ _ hs' => hs'.2)

theorem ends_pure (a : α) : Ends I E (pure a : EStateM ε σ α) := fun _ hs => hs

/-- A thrown exception is one of those allowed. -/
theorem ends_throw {e : ε} (he : E e) : Ends I E (throw e : EStateM ε σ α) :=
  fun _ hs => ⟨he, hs⟩

/-- An update that keeps the invariant ends in it. -/
theorem ends_modify {f : σ → σ} (h : ∀ s, I s → I (f s)) :
    Ends I E (modify f : EStateM ε σ PUnit) := h

/-- A choice ends in the invariant if both branches do. -/
theorem ends_ite {c : Prop} [Decidable c] {m m' : EStateM ε σ α} (h : c → Ends I E m)
    (h' : ¬ c → Ends I E m') : Ends I E (if c then m else m') := by
  split
  · next hc => exact h hc
  · next hc => exact h' hc

/-- A sequence ends in the invariant if its parts do. -/
theorem ends_bind {m : EStateM ε σ α} {f : α → EStateM ε σ β} (h : Ends I E m)
    (hf : ∀ a, Ends I E (f a)) : Ends I E (m >>= f) := by
  intro s hs
  rw [post_bind]
  exact (h s hs).mono (fun a s' hs' => hf a s' hs') (fun _ _ hs' => hs')

/-- What is read from the state comes from a state with the invariant. -/
theorem ends_get_bind {f : σ → EStateM ε σ α} (h : ∀ s, I s → Ends I E (f s)) :
    Ends I E (get >>= f) := by
  intro s hs
  rw [post_bind, post_get]
  exact h s hs s hs

/-- A handler sees only what the block throws. -/
theorem ends_try_catch {E' : ε → Prop} {m : EStateM ε σ α} {handler : ε → EStateM ε σ α}
    (h : Ends I E' m) (hhandler : ∀ e, E' e → Ends I E (handler e)) :
    Ends I E (tryCatch m handler) := by
  intro s hs
  rw [post_try_catch]
  exact (h s hs).mono (fun _ _ hs' => hs') (fun e s' hs' => hhandler e hs'.1 s' hs'.2)

/-- A pure check throws one of the exceptions allowed. -/
theorem ends_from_except {x : Except ε α} (h : ∀ e, x = .error e → E e) :
    Ends I E (fromExcept x : EStateM ε σ α) := by
  intro s hs
  rw [post_from_except]
  exact ⟨fun _ _ => hs, fun e he => ⟨h e he, hs⟩⟩

/-- A loop ends in the invariant if its body does. -/
theorem ends_for_m {f : α → EStateM ε σ PUnit} (xs : List α) (h : ∀ a, Ends I E (f a)) :
    Ends I E (forM xs f) :=
  fun _ hs => post_for_m (fun _ s => I s) (fun a _ s hs => h a s hs) hs

end Ends

section Preserves

variable {I : σ → Prop}

theorem preserves_pure (a : α) : Preserves I (pure a : EStateM ε σ α) := fun _ hs => hs

theorem preserves_throw (e : ε) : Preserves I (throw e : EStateM ε σ α) := fun _ hs => hs

/-- An update that keeps the invariant preserves it. -/
theorem preserves_modify {f : σ → σ} (h : ∀ s, I s → I (f s)) :
    Preserves I (modify f : EStateM ε σ PUnit) := h

/-- A sequence preserves what its parts preserve. -/
theorem preserves_bind {m : EStateM ε σ α} {f : α → EStateM ε σ β} (h : Preserves I m)
    (hf : ∀ a, Preserves I (f a)) : Preserves I (m >>= f) :=
  (ends_bind (preserves_iff_ends.mp h) fun a => preserves_iff_ends.mp (hf a)).preserves

/-- What is done with the result does not matter for the invariant. -/
theorem preserves_map {m : EStateM ε σ α} (h : Preserves I m) (f : α → β) :
    Preserves I (f <$> m) := by
  intro s hs
  rw [post_map]
  exact h s hs

/-- The state that is read satisfies the invariant. -/
theorem preserves_get_bind {f : σ → EStateM ε σ α} (h : ∀ s, I s → Preserves I (f s)) :
    Preserves I (get >>= f) :=
  (ends_get_bind fun s hs => preserves_iff_ends.mp (h s hs)).preserves

end Preserves

/-! ## Procedures that cannot throw -/

/-- A procedure that cannot throw returns. -/
theorem Post.returns {m : EStateM ε σ α} {s : σ} {Q : α → σ → Prop}
    (h : Post m s Q fun _ _ => False) : ∃ a s', m s = .ok a s' ∧ Q a s' := by
  cases hrun : m s with
  | ok a s' => exact ⟨a, s', rfl, h.of_ok hrun⟩
  | error e s' => exact (h.of_error hrun).elim

/-- `m` always returns, in a state related to the one it started from. -/
def Returns (R : σ → σ → Prop) (m : EStateM ε σ α) : Prop :=
  ∀ s, ∃ a s', m s = .ok a s' ∧ R s s'

/-- A procedure that returns satisfies any postcondition its results satisfy. -/
theorem Returns.post {R : σ → σ → Prop} {m : EStateM ε σ α} (h : Returns R m) {s : σ}
    {Q : α → σ → Prop} {E : ε → σ → Prop}
    (hok : ∀ a s', m s = .ok a s' → R s s' → Q a s') : Post m s Q E := by
  obtain ⟨a, s', hrun, hR⟩ := h s
  simp only [Post, hrun]
  exact hok a s' hrun hR

/-- The relation holds for a call that returned. -/
theorem Returns.of_ok {R : σ → σ → Prop} {m : EStateM ε σ α} (h : Returns R m) {s s' : σ} {a : α}
    (hrun : m s = .ok a s') : R s s' := by
  obtain ⟨a', s'', hrun', hR⟩ := h s
  rw [hrun'] at hrun
  cases hrun
  exact hR

section Returns

variable {R : σ → σ → Prop}

theorem returns_pure [Std.Refl R] (a : α) : Returns R (pure a : EStateM ε σ α) :=
  fun s => ⟨a, s, rfl, refl_of R s⟩

theorem returns_get [Std.Refl R] : Returns R (get : EStateM ε σ σ) :=
  fun s => ⟨s, s, rfl, refl_of R s⟩

/-- An update that returns a value. -/
theorem returns_modify_get {f : σ → α × σ} (h : ∀ s, R s (f s).2) :
    Returns R (modifyGet f : EStateM ε σ α) :=
  fun s => ⟨(f s).1, (f s).2, rfl, h s⟩

/-- A choice, if it holds for both branches. -/
theorem returns_ite {c : Prop} [Decidable c] {m m' : EStateM ε σ α} (h : Returns R m)
    (h' : Returns R m') : Returns R (if c then m else m') := by
  split
  · exact h
  · exact h'

/-- A sequence, if the relation is transitive. -/
theorem returns_bind [IsTrans σ R] {m : EStateM ε σ α} {f : α → EStateM ε σ β}
    (h : Returns R m) (hf : ∀ a, Returns R (f a)) : Returns R (m >>= f) := by
  intro s
  obtain ⟨a, s₁, hrun, hR⟩ := h s
  obtain ⟨b, s', hrun', hR'⟩ := hf a s₁
  refine ⟨b, s', ?_, trans_of R hR hR'⟩
  simp only [bind, EStateM.bind, hrun, hrun']

end Returns

end Foundation.Procedure
