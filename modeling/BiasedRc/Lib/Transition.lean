import Mathlib.Data.List.Basic

/-! # Labelled transition systems

A system is a set of start states and a labelled step relation. Runs grow at
their end, so a step lemma and one induction give every invariant over whole
runs. `restrict` keeps the steps that meet a condition on the state before
them, and `simulation` transports runs between two levels of one design.
-/

namespace Transition

universe u v u' v'

/-- Start states and labelled steps. -/
structure System (σ : Type u) (α : Type v) where
  start : σ → Prop
  step : σ → α → σ → Prop

namespace System

variable {σ : Type u} {α : Type v} {τ : Type u'} {β : Type v'}

/-- A finite run with its labels in order. -/
inductive Run (sys : System σ α) : σ → List α → σ → Prop where
  | nil {s} : Run sys s [] s
  | snoc {s labels mid a s'} : Run sys s labels mid → sys.step mid a s' →
      Run sys s (labels ++ [a]) s'

/-- A state that some run from a start state ends in. -/
def Reachable (sys : System σ α) (s : σ) : Prop :=
  ∃ s₀ labels, sys.start s₀ ∧ Run sys s₀ labels s

theorem Reachable.start {sys : System σ α} {s} (h : sys.start s) : sys.Reachable s :=
  ⟨s, [], h, .nil⟩

theorem Reachable.step {sys : System σ α} {s a s'} (h : sys.Reachable s)
    (taken : sys.step s a s') : sys.Reachable s' := by
  obtain ⟨s₀, labels, started, run⟩ := h
  exact ⟨s₀, labels ++ [a], started, run.snoc taken⟩

theorem Reachable.run {sys : System σ α} {s labels s'} (h : sys.Reachable s)
    (run : Run sys s labels s') : sys.Reachable s' := by
  induction run with
  | nil => exact h
  | snoc _ taken ih => exact ih.step taken

theorem Run.trans {sys : System σ α} {s labels mid labels' s'} (first : Run sys s labels mid)
    (second : Run sys mid labels' s') : Run sys s (labels ++ labels') s' := by
  induction second with
  | nil => rwa [List.append_nil]
  | snoc _ taken ih =>
      rw [← List.append_assoc]
      exact ih.snoc taken

/-- What every step preserves holds at the end of every run it holds at the start of. -/
theorem Run.invariant {sys : System σ α} {P : σ → Prop} {s labels s'}
    (run : Run sys s labels s') (init : P s)
    (preserved : ∀ s a s', P s → sys.step s a s' → P s') : P s' := by
  induction run with
  | nil => exact init
  | snoc _ taken ih => exact preserved _ _ _ ih taken

/-- Steps that cost one are paid from a potential, which some steps refill by `rate`. -/
theorem Run.countP_le {sys : System σ α} {potential : σ → Nat} {costs pays : α → Bool} {rate : Nat}
    {s labels s'} (run : Run sys s labels s')
    (paid : ∀ s a s', sys.step s a s' →
      (costs a).toNat + potential s' ≤ potential s + rate * (pays a).toNat) :
    labels.countP costs + potential s' ≤ potential s + rate * labels.countP pays := by
  induction run with
  | nil => simp
  | @snoc labels mid a s' _ taken ih =>
      have last := paid _ _ _ taken
      have single (p : α → Bool) : [a].countP p = (p a).toNat := by
        cases holds : p a <;> simp [holds]
      rw [List.countP_append, List.countP_append, single, single, Nat.mul_add]
      omega

/-- A potential that every step lowers, where an invariant holds, bounds the steps of a run. -/
theorem Run.length_le {sys : System σ α} {P : σ → Prop} {potential : σ → Nat} {s labels s'}
    (run : Run sys s labels s') (init : P s)
    (lowers : ∀ s a s', P s → sys.step s a s' → P s' ∧ potential s' < potential s) :
    P s' ∧ labels.length + potential s' ≤ potential s := by
  induction run with
  | nil => exact ⟨init, by simp⟩
  | snoc _ taken ih =>
      obtain ⟨holds, bound⟩ := ih
      obtain ⟨holds', less⟩ := lowers _ _ _ holds taken
      refine ⟨holds', ?_⟩
      rw [List.length_append, List.length_singleton]
      omega

/-- The invariant rule. -/
theorem Reachable.invariant {sys : System σ α} {P : σ → Prop} {s}
    (h : sys.Reachable s) (init : ∀ s, sys.start s → P s)
    (preserved : ∀ s a s', P s → sys.step s a s' → P s') : P s := by
  obtain ⟨s₀, labels, started, run⟩ := h
  exact run.invariant (init s₀ started) preserved

/-- The steps that meet `guard` in the state they are taken from. -/
def restrict (sys : System σ α) (guard : σ → α → Prop) : System σ α where
  start := sys.start
  step s a s' := guard s a ∧ sys.step s a s'

theorem Run.of_restrict {sys : System σ α} {guard s labels s'}
    (run : Run (sys.restrict guard) s labels s') : Run sys s labels s' := by
  induction run with
  | nil => exact .nil
  | snoc _ taken ih => exact ih.snoc taken.2

theorem Run.restrict_mono {sys : System σ α} {guard guard' : σ → α → Prop} {s labels s'}
    (run : Run (sys.restrict guard) s labels s') (weaker : ∀ s a, guard s a → guard' s a) :
    Run (sys.restrict guard') s labels s' := by
  induction run with
  | nil => exact .nil
  | snoc _ taken ih => exact ih.snoc ⟨weaker _ _ taken.1, taken.2⟩

theorem Reachable.of_restrict {sys : System σ α} {guard s}
    (h : (sys.restrict guard).Reachable s) : sys.Reachable s := by
  obtain ⟨s₀, labels, started, run⟩ := h
  exact ⟨s₀, labels, started, run.of_restrict⟩

/-- The system of a partial step function. -/
def ofNext (start : σ → Prop) (next : σ → α → Option σ) : System σ α where
  start := start
  step s a s' := next s a = some s'

/-- The step function with a check of `guard` before each step. -/
def guarded (guard : σ → α → Prop) [∀ s a, Decidable (guard s a)] (next : σ → α → Option σ) :
    σ → α → Option σ :=
  fun s a => if guard s a then next s a else none

/-- Take the listed steps in order; `none` when one of them is not enabled. -/
def replay (next : σ → α → Option σ) : σ → List α → Option σ
  | s, [] => some s
  | s, a :: rest => (next s a).bind fun s' => replay next s' rest

theorem Run.cons {sys : System σ α} {s a mid labels s'} (taken : sys.step s a mid)
    (run : Run sys mid labels s') : Run sys s (a :: labels) s' := by
  induction run with
  | nil => exact Run.snoc .nil taken
  | snoc _ last ih => exact ih.snoc last

/-- Evaluating a list of steps gives a run. -/
theorem Run.of_replay {start : σ → Prop} {next : σ → α → Option σ} {guard : σ → α → Prop}
    [∀ s a, Decidable (guard s a)] {s s' : σ} {labels : List α}
    (h : replay (guarded guard next) s labels = some s') :
    Run ((ofNext start next).restrict guard) s labels s' := by
  induction labels generalizing s with
  | nil =>
      simp only [replay, Option.some.injEq] at h
      exact h ▸ .nil
  | cons a rest ih =>
      simp only [replay, Option.bind_eq_some_iff, guarded, Option.ite_none_right_eq_some] at h
      obtain ⟨mid, ⟨allowed, taken⟩, later⟩ := h
      exact .cons ⟨allowed, taken⟩ (ih later)

theorem Run.exists_of_replay {start : σ → Prop} {next : σ → α → Option σ} {guard : σ → α → Prop}
    [∀ s a, Decidable (guard s a)] {s : σ} {labels : List α} (p : σ → Prop) [DecidablePred p]
    (h : (replay (guarded guard next) s labels).any (fun s' => decide (p s')) = true) :
    ∃ s', Run ((ofNext start next).restrict guard) s labels s' ∧ p s' := by
  rw [Option.any_eq_true] at h
  obtain ⟨s', ends, holds⟩ := h
  exact ⟨s', .of_replay ends, of_decide_eq_true holds⟩

theorem Reachable.of_replay {start : σ → Prop} {next : σ → α → Option σ} {guard : σ → α → Prop}
    [∀ s a, Decidable (guard s a)] {s : σ}
    (reached : ((ofNext start next).restrict guard).Reachable s) (labels : List α)
    (p : σ → Prop) [DecidablePred p]
    (h : (replay (guarded guard next) s labels).any (fun s' => decide (p s')) = true) :
    ∃ s', ((ofNext start next).restrict guard).Reachable s' ∧ p s' := by
  obtain ⟨s', run, holds⟩ := Run.exists_of_replay p h
  exact ⟨s', reached.run run, holds⟩

/-- Forward simulation: a step with a visible label is matched by that abstract step, any
    other by none. What is related may depend on the labels so far. -/
theorem Run.simulation {conc : System σ α} {abs : System τ β} {visible : α → Option β}
    {R : List α → σ → τ → Prop} {s labels s' t} (run : Run conc s labels s') (init : R [] s t)
    (matched : ∀ labels s a s' t, R labels s t → conc.step s a s' →
      ∃ t', (match visible a with | none => t' = t | some b => abs.step t b t') ∧
        R (labels ++ [a]) s' t') :
    ∃ t', Run abs t (labels.filterMap visible) t' ∧ R labels s' t' := by
  induction run with
  | nil => exact ⟨t, .nil, init⟩
  | @snoc labels mid a s' _ taken ih =>
      obtain ⟨u, before, related⟩ := ih
      obtain ⟨u', follows, related'⟩ := matched labels mid a s' u related taken
      refine ⟨u', ?_, related'⟩
      rw [List.filterMap_append]
      cases label : visible a with
      | none =>
          rw [label] at follows
          simpa [label, follows] using before
      | some b =>
          rw [label] at follows
          simpa [label] using before.snoc follows

end System

end Transition
