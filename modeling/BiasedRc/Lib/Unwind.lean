import Mathlib.Tactic.Basic

/-! # Code that may unwind

A computation on a state returns, unwinds, aborts, or does what the language leaves
undefined. Guards run their cleanup when a scope unwinds; a cleanup that unwinds
itself aborts. `Ends` is the weakest precondition of such code: each lemma below
says what a piece of code needs for its postconditions, so `simp only` with them
executes the code.
-/

namespace Unwind

inductive Stop where
  | unwinding
  | aborted
  | undefined
  deriving DecidableEq, Repr

/-- What is left of the state is kept also when the code stops. -/
abbrev Code (σ α : Type) := EStateM Stop σ α

variable {σ α β : Type}

/-- A scope with a drop guard. -/
def onUnwind (cleanup : Code σ PUnit) (body : Code σ α) : Code σ α := fun s =>
  match body s with
  | .error .unwinding s' =>
      match cleanup s' with
      | .ok _ s'' => .error .unwinding s''
      | .error .undefined s'' => .error .undefined s''
      | .error _ s'' => .error .aborted s''
  | result => result

/-- The code returns with `post`, unwinds with `unwound`, or aborts with `aborted`. -/
def Ends (aborted : Prop) (post : α → σ → Prop) (unwound : σ → Prop) (x : Code σ α) (s : σ) : Prop :=
  match x s with
  | .ok a s' => post a s'
  | .error .unwinding s' => unwound s'
  | .error .aborted _ => aborted
  | .error .undefined _ => False

variable {aborted : Prop} {post : α → σ → Prop} {unwound : σ → Prop} {s : σ}

@[simp] theorem ends_pure {a : α} : Ends aborted post unwound (pure a) s ↔ post a s := Iff.rfl

@[simp] theorem ends_get {post : σ → σ → Prop} :
    Ends aborted post unwound (get : Code σ σ) s ↔ post s s := Iff.rfl

@[simp] theorem ends_modify {post : PUnit → σ → Prop} {f : σ → σ} :
    Ends aborted post unwound (modify f : Code σ PUnit) s ↔ post ⟨⟩ (f s) := Iff.rfl

@[simp] theorem ends_unwinding :
    Ends aborted post unwound (throw .unwinding : Code σ α) s ↔ unwound s := Iff.rfl

@[simp] theorem ends_aborted :
    Ends aborted post unwound (throw .aborted : Code σ α) s ↔ aborted := Iff.rfl

@[simp] theorem ends_undefined :
    Ends aborted post unwound (throw .undefined : Code σ α) s ↔ False := Iff.rfl

@[simp] theorem ends_bind {x : Code σ α} {f : α → Code σ β} {post : β → σ → Prop} :
    Ends aborted post unwound (x >>= f) s ↔
      Ends aborted (fun a s' => Ends aborted post unwound (f a) s') unwound x s := by
  simp only [Ends, bind, EStateM.bind]
  cases x s with
  | ok a s' => rfl
  | error e s' => cases e <;> rfl

/-- A guard turns an unwinding into the end of its cleanup. -/
@[simp] theorem ends_onUnwind {cleanup : Code σ PUnit} {body : Code σ α} :
    Ends aborted post unwound (onUnwind cleanup body) s ↔
      Ends aborted post (Ends aborted (fun _ => unwound) (fun _ => aborted) cleanup) body s := by
  simp only [Ends, onUnwind]
  cases body s with
  | ok a s' => rfl
  | error e s' =>
      cases e with
      | aborted | undefined => rfl
      | unwinding =>
          dsimp only
          cases cleanup s' with
          | ok _ s'' => rfl
          | error e' s'' => cases e' <;> rfl

theorem Ends.mono {x : Code σ α} {aborted' : Prop} {post' : α → σ → Prop} {unwound' : σ → Prop}
    (h : Ends aborted post unwound x s) (abort : aborted → aborted')
    (ret : ∀ a s', post a s' → post' a s') (unwind : ∀ s', unwound s' → unwound' s') :
    Ends aborted' post' unwound' x s := by
  unfold Ends at h ⊢
  split at h
  · exact ret _ _ h
  · exact unwind _ h
  · exact abort h
  · exact h.elim

/-- Code that has no reason to stop returns. -/
theorem Ends.returns {x : Code σ α} (h : Ends aborted post (fun _ => aborted) x s)
    (none : ¬ aborted) : ∃ a s', x s = .ok a s' ∧ post a s' := by
  unfold Ends at h
  split at h
  · rename_i a s' returned
    exact ⟨a, s', returned, h⟩
  · exact absurd h none
  · exact absurd h none
  · exact h.elim

/-- Code cannot end in two ways that exclude each other. -/
theorem Ends.exclusive {x : Code σ α} {post' : α → σ → Prop} {unwound' : σ → Prop}
    (h : Ends aborted post unwound x s) (h' : Ends False post' unwound' x s)
    (returned : ∀ a s', post a s' → ¬ post' a s') (unwinds : ∀ s', unwound s' → ¬ unwound' s') :
    False := by
  unfold Ends at h h'
  generalize x s = result at h h'
  cases result with
  | ok a s' => exact returned a s' h h'
  | error e s' =>
      cases e with
      | unwinding => exact unwinds s' h h'
      | aborted => exact h'
      | undefined => exact h

end Unwind
