import BiasedRc.WeakLock

/-! # Counts reported while others run

`Weak::weak_count` loads the weak count, then the shared word and then the biased
word, and other threads may take any number of steps between the loads. A value
that is dead at the first load is dead at the second, so a count of strong
handles other than zero says that the weak count was loaded while the strong
handles still had their reference in it.
-/

namespace BiasedRc

open Tally Transition.System

variable {pw : PointerWidth} {Tid : Type}

/-- `Brc::weak_count`. -/
def Brc.weakCount (weakCount : BitVec 32) : Nat :=
  if weakCount = weakLockedCount then 0 else (weakCount - 1).toNat

/-- `Weak::weak_count` from what it loads; `none` is the panic of its `expect`. -/
def Weak.weakCount (weak : BitVec 32) : Except Nat Nat → Option (Except Nat Nat)
  | .ok 0 => some (.ok 0)
  | .error 0 => some (.error 0)
  | .ok (_ + 1) | .error (_ + 1) => if weak = 0 then none else some (.ok (weak - 1).toNat)

variable [DecidableEq Tid]

/-- The thread that takes the step. -/
def Act.caller : Act Tid → Tid
  | .start t _ | .advance t _ | .merge t | .die t | .send t _ | .sendWeak t _ => t

namespace Machine

variable [Fintype Tid]

/-- `Weak::strong_count` and `Brc::strong_count`: the shared word, then the biased word. -/
def strongCount (t : Tid) (m₂ m₃ : Machine pw Tid) : Except Nat Nat :=
  RawBrcHeader.strongCount (m₂.shortId t) m₂.header.shared m₃.header.biased

variable {m m' m₁ m₂ m₃ : Machine pw Tid} {t : Tid}

namespace Inv

omit [DecidableEq Tid] in
theorem strongCount_of_merged (inv : m.Inv) (merged : m.header.shared.merged = true) :
    strongCount t m m' = .ok (total m.strong) :=
  RawBrcHeader.strongCount_of_merged merged (inv.counts.merged merged)

end Inv

end Machine

end BiasedRc
