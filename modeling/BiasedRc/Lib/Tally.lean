import Mathlib.Algebra.BigOperators.Group.Finset.Piecewise
import Mathlib.Algebra.Order.BigOperators.Group.Finset
import Mathlib.Data.Fintype.BigOperators
import Mathlib.Tactic.Ring

/-! # Weighted counts over finitely many parties

Parties of a system are the elements of a finite type, each with a local value.
`tally weight f` adds up what each party contributes. A step changes one party,
and `tally_update` is what that does to the count.
-/

namespace Tally

variable {ι : Type*} {α : Type*}

section

variable [DecidableEq ι]

/-- One more for party `i`. -/
def raise (f : ι → ℕ) (i : ι) : ι → ℕ := Function.update f i (f i + 1)

/-- One less for party `i`. -/
def lower (f : ι → ℕ) (i : ι) : ι → ℕ := Function.update f i (f i - 1)

@[simp] theorem raise_self (f : ι → ℕ) (i : ι) : raise f i i = f i + 1 :=
  Function.update_self ..

@[simp] theorem lower_self (f : ι → ℕ) (i : ι) : lower f i i = f i - 1 :=
  Function.update_self ..

theorem raise_of_ne (f : ι → ℕ) {i j : ι} (different : j ≠ i) : raise f i j = f j :=
  Function.update_of_ne different ..

theorem lower_of_ne (f : ι → ℕ) {i j : ι} (different : j ≠ i) : lower f i j = f j :=
  Function.update_of_ne different ..

theorem le_raise (f : ι → ℕ) (i j : ι) : f j ≤ raise f i j := by
  by_cases same : j = i
  · subst same; simp only [raise_self]; omega
  · rw [raise_of_ne f same]

end

variable [Fintype ι]

/-- Sum of the parties' contributions. -/
def tally (weight : α → ℕ) (f : ι → α) : ℕ := ∑ i, weight (f i)

/-- Sum of a count that each party keeps. -/
abbrev total (f : ι → ℕ) : ℕ := tally id f

theorem le_tally (weight : α → ℕ) (f : ι → α) (i : ι) : weight (f i) ≤ tally weight f :=
  Finset.single_le_sum (f := fun j => weight (f j)) (fun _ _ => Nat.zero_le _) (Finset.mem_univ i)

theorem tally_eq_zero_iff (weight : α → ℕ) (f : ι → α) :
    tally weight f = 0 ↔ ∀ i, weight (f i) = 0 := by
  simp only [tally, Finset.sum_eq_zero_iff, Finset.mem_univ, forall_const]

theorem tally_le_card {weight : α → ℕ} (small : ∀ a, weight a ≤ 1) (f : ι → α) :
    tally weight f ≤ Fintype.card ι :=
  calc tally weight f ≤ ∑ _i : ι, 1 := Finset.sum_le_sum fun i _ => small (f i)
    _ = Fintype.card ι := (Finset.card_eq_sum_ones Finset.univ).symm

/-- A party that contributes nothing leaves room below the number of parties. -/
theorem tally_lt_card {weight : α → ℕ} (small : ∀ a, weight a ≤ 1) {f : ι → α} {i : ι}
    (nothing : weight (f i) = 0) : tally weight f < Fintype.card ι :=
  calc tally weight f < ∑ _i : ι, 1 :=
        Finset.sum_lt_sum (fun j _ => small (f j)) ⟨i, Finset.mem_univ i, by omega⟩
    _ = Fintype.card ι := (Finset.card_eq_sum_ones Finset.univ).symm

@[simp] theorem tally_const_zero {weight : α → ℕ} {a : α} (zero : weight a = 0) :
    tally weight (fun _ : ι => a) = 0 :=
  (tally_eq_zero_iff _ _).mpr fun _ => zero

theorem total_zero : total (fun _ : ι => 0) = 0 := tally_const_zero rfl

theorem le_total (f : ι → ℕ) (i : ι) : f i ≤ total f := le_tally id f i

theorem total_eq_zero_iff (f : ι → ℕ) : total f = 0 ↔ ∀ i, f i = 0 := tally_eq_zero_iff id f

variable [DecidableEq ι]

theorem tally_update (weight : α → ℕ) (f : ι → α) (i : ι) (a : α) :
    tally weight (Function.update f i a) + weight (f i) = tally weight f + weight a := by
  have moved : (fun j => weight (Function.update f i a j)) =
      Function.update (fun j => weight (f j)) i (weight a) := by
    funext j
    by_cases at_i : j = i
    · subst at_i; simp only [Function.update_self]
    · simp only [Function.update_of_ne at_i]
  simp only [tally, moved]
  rw [Finset.sum_update_of_mem (Finset.mem_univ i), Finset.sdiff_singleton_eq_erase,
    ← Finset.add_sum_erase _ _ (Finset.mem_univ i)]
  ring

/-- `tally_update` for a step that is known to leave all other parties alone. -/
theorem tally_of_others (weight : α → ℕ) {f g : ι → α} {i : ι} (others : ∀ j, j ≠ i → g j = f j) :
    tally weight g + weight (f i) = tally weight f + weight (g i) := by
  have moved : g = Function.update f i (g i) := Function.eq_update_iff.mpr ⟨rfl, others⟩
  rw [moved, Function.update_self]
  exact tally_update weight f i (g i)

/-- Two different parties contribute separately. -/
theorem add_le_tally (weight : α → ℕ) (f : ι → α) {i j : ι} (different : i ≠ j) :
    weight (f i) + weight (f j) ≤ tally weight f := by
  rw [← Finset.sum_pair (f := fun k => weight (f k)) different]
  exact Finset.sum_le_sum_of_subset (Finset.subset_univ _)

@[simp] theorem total_raise (f : ι → ℕ) (i : ι) : total (raise f i) = total f + 1 := by
  have moved := tally_update id f i (f i + 1)
  simp only [id] at moved
  simp only [total, raise]
  omega

theorem total_raise_zero (i : ι) : total (raise (fun _ => 0) i) = 1 := by
  rw [total_raise, total_zero]

theorem total_lower {f : ι → ℕ} {i : ι} (holds : 1 ≤ f i) : total (lower f i) + 1 = total f := by
  have moved := tally_update id f i (f i - 1)
  simp only [id] at moved
  simp only [total, lower]
  omega

end Tally
