import CheckpointStore.Foundation.Procedure

/-!
# Decoding

A decoder is a procedure over a state that holds the input still to be read. `Parses` says what
it does on inputs that start with a given string: it consumes exactly that string, unless a
condition on the string fails, and then it throws. The condition is exact, so a chain of
decoders (`parses_bind`) comes with the exact condition under which all of it is read back.
-/

namespace Foundation.Decoding

open Foundation.Procedure

variable {ε σ τ α β γ : Type}

/-- Started in a state with `P` whose input begins with `bs`, the decoder `m` returns exactly when
`ok` holds. It has then consumed `bs` and established `Q`; when it throws it has established
`E`. Only strings shorter than `limit` are considered, so that their lengths fit into a field. -/
def Parses (rest : σ → List γ) (limit : Nat) (P : σ → Prop) (m : EStateM ε σ α) (bs : List γ)
    (ok : Prop) (Q : α → σ → Prop) (E : σ → Prop) : Prop :=
  ∀ s suffix, P s → rest s = bs ++ suffix → bs.length < limit →
    Post m s (fun a s' => ok ∧ rest s' = suffix ∧ Q a s') (fun _ s' => ¬ ok ∧ E s')

variable {rest : σ → List γ} {limit : Nat} {P : σ → Prop} {m : EStateM ε σ α} {bs : List γ}
  {ok : Prop} {Q : α → σ → Prop} {E : σ → Prop}

/-- Returning a value reads nothing. -/
theorem parses_pure (a : α) : Parses rest limit (Q a) (pure a : EStateM ε σ α) [] True Q E :=
  fun _ _ hs hrest _ => ⟨trivial, hrest, hs⟩

/-- A decoder followed by another reads the two strings one after the other. -/
theorem parses_bind {f : α → EStateM ε σ β} {bs' : List γ} {ok' : Prop} {Q' : β → σ → Prop}
    (h : Parses rest limit P m bs ok Q E)
    (h' : ∀ a, Parses rest limit (Q a) (f a) bs' ok' Q' E) :
    Parses rest limit P (m >>= f) (bs ++ bs') (ok ∧ ok') Q' E := by
  intro s suffix hs hrest hlimit
  rw [List.length_append] at hlimit
  rw [List.append_assoc] at hrest
  rw [post_bind]
  refine (h s _ hs hrest (by omega)).mono (fun a s₁ hs₁ => ?_) (fun _ s₁ hs₁ => ?_)
  · obtain ⟨hok, hrest₁, hQ⟩ := hs₁
    refine (h' a s₁ suffix hQ hrest₁ (by omega)).mono (fun _ s₂ hs₂ => ?_) (fun _ s₂ hs₂ => ?_)
    · exact ⟨⟨hok, hs₂.1⟩, hs₂.2⟩
    · exact ⟨fun hboth => hs₂.1 hboth.2, hs₂.2⟩
  · exact ⟨fun hboth => hs₁.1 hboth.1, hs₁.2⟩

/-- The rule of consequence. -/
theorem Parses.mono {P' : σ → Prop} {ok' : Prop} {Q' : α → σ → Prop} {E' : σ → Prop}
    (h : Parses rest limit P m bs ok Q E) (hP : ∀ s, P' s → P s) (hok : ok ↔ ok')
    (hQ : ∀ a s, Q a s → Q' a s) (hE : ∀ s, E s → E' s) :
    Parses rest limit P' m bs ok' Q' E' := by
  intro s suffix hs hrest hlimit
  refine (h s suffix (hP s hs) hrest hlimit).mono (fun a s' hs' => ?_) (fun _ s' hs' => ?_)
  · exact ⟨hok.mp hs'.1, hs'.2.1, hQ a s' hs'.2.2⟩
  · exact ⟨fun hok' => hs'.1 (hok.mpr hok'), hE s' hs'.2⟩

/-- A decoder over a component of the state leaves alone what does not depend on the component. -/
theorem parses_zoom {rest : τ → List γ} {get : σ → τ} {set : τ → σ → σ} {m : EStateM ε τ α}
    {Q : α → Prop} (hget : ∀ t s, get (set t s) = t) (hP : ∀ t s, P s → P (set t s))
    (h : Parses rest limit (fun _ => True) m bs ok (fun a _ => Q a) (fun _ => True)) :
    Parses (fun s => rest (get s)) limit P (zoom get set m) bs ok (fun a s => Q a ∧ P s) P := by
  intro s suffix hs hrest hlimit
  rw [post_zoom]
  refine (h (get s) suffix trivial hrest hlimit).mono (fun a t ht => ?_) (fun _ t ht => ?_)
  · refine ⟨ht.1, ?_, ht.2.2, hP t s hs⟩
    show rest (get (set t s)) = suffix
    rw [hget]
    exact ht.2.1
  · exact ⟨ht.1, hP t s hs⟩

end Foundation.Decoding
