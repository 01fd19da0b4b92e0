import Mathlib.Tactic.Basic

/-! # Postconditions of fallible code

`Yields permitted post x` says that `x` either returns a value that satisfies
`post` or stops with a permitted error. One lemma per operation in this form
gives both what the operation preserves and which of its checks can fire.
-/

namespace Outcome

universe u v

variable {ε : Type u} {α β : Type v}

/-- The code returns with `post`, or stops with a `permitted` error. -/
def Yields (permitted : ε → Prop) (post : α → Prop) : Except ε α → Prop
  | .ok a => post a
  | .error e => permitted e

variable {permitted : ε → Prop} {post : α → Prop}

@[simp] theorem yields_ok {a : α} : Yields permitted post (.ok a) ↔ post a := Iff.rfl

@[simp] theorem yields_error {e : ε} : Yields permitted post (.error e) ↔ permitted e := Iff.rfl

@[simp] theorem yields_pure {a : α} : Yields permitted post (pure a) ↔ post a := Iff.rfl

@[simp] theorem yields_map {x : Except ε α} {f : α → β} {post : β → Prop} :
    Yields permitted post (x.map f) ↔ Yields permitted (fun a => post (f a)) x := by
  cases x <;> exact Iff.rfl

theorem Yields.mono {x : Except ε α} {post' : α → Prop} (h : Yields permitted post x)
    (weaker : ∀ a, post a → post' a) : Yields permitted post' x := by
  cases x with
  | error e => exact h
  | ok a => exact weaker a h

/-- The weaker condition may use which value the code returned. -/
theorem Yields.mono_eq {x : Except ε α} {post' : α → Prop} (h : Yields permitted post x)
    (weaker : ∀ a, x = .ok a → post a → post' a) : Yields permitted post' x := by
  cases x with
  | error e => exact h
  | ok a => exact weaker a rfl h

theorem Yields.weaken {x : Except ε α} {permitted' : ε → Prop} (h : Yields permitted post x)
    (weaker : ∀ e, permitted e → permitted' e) : Yields permitted' post x := by
  cases x with
  | error e => exact weaker e h
  | ok a => exact h

theorem Yields.bind {x : Except ε α} {f : α → Except ε β} {post' : β → Prop}
    (h : Yields permitted post x) (next : ∀ a, post a → Yields permitted post' (f a)) :
    Yields permitted post' (x >>= f) := by
  cases x with
  | error e => exact h
  | ok a => exact next a h

/-- The continuation also learns which value it was given. -/
theorem Yields.bind_eq {x : Except ε α} {f : α → Except ε β} {post' : β → Prop}
    (h : Yields permitted post x) (next : ∀ a, x = .ok a → post a → Yields permitted post' (f a)) :
    Yields permitted post' (x >>= f) := by
  cases x with
  | error e => exact h
  | ok a => exact next a rfl h

theorem Yields.of_ok {x : Except ε α} {a : α} (h : Yields permitted post x) (returned : x = .ok a) :
    post a := by
  subst returned
  exact h

theorem Yields.of_error {x : Except ε α} {e : ε} (h : Yields permitted post x)
    (stopped : x = .error e) : permitted e := by
  subst stopped
  exact h

/-- A condition on what the code returns. -/
def decidableForallOk (x : Except ε α) (p : α → Prop) [DecidablePred p] :
    Decidable (∀ a, x = .ok a → p a) :=
  match x with
  | .error _ => .isTrue fun _ returned => by cases returned
  | .ok a => decidable_of_iff (p a) (by simp)

theorem toOption_eq_some {x : Except ε α} {a : α} : x.toOption = some a ↔ x = .ok a := by
  cases x <;> simp [Except.toOption]

/-- Without permitted errors the code is total. -/
theorem Yields.total {x : Except ε α} (h : Yields (fun _ => False) post x) :
    ∃ a, x = .ok a ∧ post a := by
  cases x with
  | error e => exact h.elim
  | ok a => exact ⟨a, rfl, h⟩

end Outcome
