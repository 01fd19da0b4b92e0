import Mathlib.Data.Fintype.Card
import Mathlib.Data.Fintype.EquivFin
import Mathlib.Logic.Relation

/-! # Where paths into a node of a finite graph begin

Walking backwards along edges in a finite graph either stops or comes back to a
node that was passed. If it can only stop at roots, every node is reached from a
root or from a cycle.
-/

namespace Roots

open Relation

variable {α : Type*} {edge : α → α → Prop} {root inside : α → Prop}

/-- Something on a path to `x` is a root, or lies on a cycle. -/
def Grounded (edge : α → α → Prop) (root : α → Prop) (x : α) : Prop :=
  ∃ y, ReflTransGen edge y x ∧ (root y ∨ TransGen edge y y)

/-- Proper ancestors are well founded where no ancestor lies on a cycle. -/
theorem wellFounded_ancestors [Finite α] {x : α}
    (acyclic : ∀ y, ReflTransGen edge y x → ¬ TransGen edge y y) :
    WellFounded fun y z : { y // ReflTransGen edge y x } => TransGen edge y.1 z.1 := by
  have : IsTrans { y // ReflTransGen edge y x } fun y z => TransGen edge y.1 z.1 :=
    ⟨fun _ _ _ first second => first.trans second⟩
  have : Std.Irrefl fun y z : { y // ReflTransGen edge y x } => TransGen edge y.1 z.1 :=
    ⟨fun y => acyclic y.1 y.2⟩
  exact Finite.wellFounded_of_trans_of_irrefl _

/-- Every node inside is a root, or has an edge from another node inside. -/
theorem grounded_of_inside [Finite α]
    (entered : ∀ x, inside x → root x ∨ ∃ y, edge y x ∧ inside y) {x : α} (within : inside x) :
    Grounded edge root x := by
  by_contra groundless
  have acyclic : ∀ y, ReflTransGen edge y x → ¬ TransGen edge y y :=
    fun y path cycle => groundless ⟨y, path, .inr cycle⟩
  have climb : ∀ y : { y // ReflTransGen edge y x }, ¬ inside y.1 := by
    intro y
    induction y using (wellFounded_ancestors acyclic).induction with
    | _ y ih =>
        intro here
        obtain stop | ⟨z, taken, there⟩ := entered y.1 here
        · exact groundless ⟨y.1, y.2, .inl stop⟩
        · exact ih ⟨z, y.2.head taken⟩ (.single taken) there
  exact climb ⟨x, .refl⟩ within

end Roots
