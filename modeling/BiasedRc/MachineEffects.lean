import BiasedRc.MachineInvariant

/-! # What one access does beside the strong counts

The weak count, the log of upgrades and the control flow, told once for all
accesses. `Frame` is what holds of every access, and `Effect` says which of the
few accesses to the weak count or which return of an upgrade it was.
-/

namespace BiasedRc

open Tally

variable {pw : PointerWidth} {Tid : Type} [DecidableEq Tid]

/-- The kinds of calls that do not turn into one another. -/
inductive CallKind where
  | clone
  | upgrade
  /-- `decrement_strong` and `explicit_merge`, up to the end of a dealloc. -/
  | release
  | downgrade
  | cloneWeak
  | dropWeak
  | isUnique
  deriving DecidableEq

def Pc.call : Pc pw → Option CallKind
  | .idle => none
  | .incrementLoad upgrade | .incrementStore upgrade _ => some (if upgrade then .upgrade else .clone)
  | .sharedIncrement => some .clone
  | .upgradeLoad | .upgradeExchange _ _ => some .upgrade
  | .decrementLoad | .decrementStore _ | .slowMerge | .slowRelease _ | .sharedLoad
  | .sharedExchange _ _ | .queueLoad | .queuePush _ | .mergeLoad _ | .mergeSharedLoad _
  | .mergeExchange _ _ _ | .mergeRelease _ | .destroy | .releaseImplicit => some .release
  | .downgradeLoad | .downgradeExchange _ => some .downgrade
  | .weakIncrement => some .cloneWeak
  | .weakDecrement => some .dropWeak
  | .uniqueLoad | .uniqueLock | .uniqueSharedLoad | .uniqueBiasedLoad _ _ _
  | .uniqueUnlock _ _ _ => some .isUnique

variable [Fintype Tid]

namespace Machine

/-- What every access of thread `t` leaves alone. -/
structure Frame (m : Machine pw Tid) (t : Tid) (m' : Machine pw Tid) : Prop where
  shortId : m'.shortId = m.shortId
  pc : ∀ t', t' ≠ t → m'.pc t' = m.pc t'
  handles : ∀ t', t' ≠ t → m'.strong t' = m.strong t' ∧ m'.weak t' = m.weak t'
  decided : m.decided ≤ m'.decided
  call : m'.pc t = .idle ∨ (m'.pc t).call = (m.pc t).call
  unique : (m.pc t).call = some .isUnique → m'.strong = m.strong

theorem advance_frame {m m' : Machine pw Tid} {t spurious}
    (returned : m.advance t spurious = .ok m') : m.Frame t m' := by
  unfold advance at returned
  cases pc : m.pc t <;>
    simp only [pc, tryUpgrade, tryDecrement, tryMerge, bind, Except.bind, pure, Except.pure]
      at returned <;>
    (repeat' split at returned) <;>
    cases returned <;>
    constructor <;>
    simp +contextual [goto, hold, answer, raise, lower, Function.update_of_ne, Pc.call, *]

/-- The weak side is as before. -/
def SameWeak (m m' : Machine pw Tid) : Prop :=
  m'.weakCount = m.weakCount ∧ m'.weak = m.weak ∧ m'.freed = m.freed

/-- The access of thread `t`, by what it does to the weak side and to the log of upgrades. -/
inductive Effect (m : Machine pw Tid) (t : Tid) (m' : Machine pw Tid) : Prop where
  | header (same : m.SameWeak m') (upgrades : m'.upgrades = m.upgrades)
      (before : (m.pc t).locks = false) (after : (m'.pc t).locks = false)
  | refused (dead : m.header.shared.merged = true ∧ m.header.shared.sharedCount.value = 0)
      (call : (m.pc t).call = some .upgrade) (result : m' = m.answer t false)
  | upgraded {header} (call : (∃ new, m.pc t = .incrementStore true new) ∨
        ∃ new, m.pc t = .upgradeExchange m.header.shared new)
      (result : m' = (m.hold header (raise m.strong t)).answer t true)
  | release (call : m.pc t = .releaseImplicit)
      (result : m' = ({ m with
        weakCount := m.weakCount - 1, freed := m.freed || m.weakCount == 1 }).goto t .idle)
  | acquireWeak (call : m.pc t = .weakIncrement ∨ m.pc t = .downgradeExchange m.weakCount ∧
        m.weakCount ≠ weakLockedCount)
      (below : m.weakCount.toNat ≤ weakOverflowThreshold)
      (result : m' = ({ m with
        weakCount := m.weakCount + 1, weak := raise m.weak t }).goto t .idle)
  | releaseWeak (call : m.pc t = .weakDecrement)
      (result : m' = ({ m with
        weakCount := m.weakCount - 1, weak := lower m.weak t
        freed := m.freed || m.weakCount == 1 }).goto t .idle)
  | lock (call : m.pc t = .uniqueLock) (free : m.weakCount = 1)
      (result : m' = ({ m with weakCount := weakLockedCount }).goto t .uniqueSharedLoad)
  | look (call : m.pc t = .uniqueSharedLoad)
      (result : m' = m.goto t (.uniqueBiasedLoad m.header.shared (total m.strong) (total m.weak)))
  | judge {shared strong weak result} (call : m.pc t = .uniqueBiasedLoad shared strong weak)
      (result : m' = m.goto t (.uniqueUnlock result strong weak))
  | unlock (call : (m.pc t).locks = true)
      (result : m' = ({ m with weakCount := 1 }).goto t .idle)

theorem Effect.goto {m : Machine pw Tid} {t} {pc : Pc pw} (before : (m.pc t).locks = false)
    (after : pc.locks = false) : m.Effect t (m.goto t pc) :=
  .header ⟨rfl, rfl, rfl⟩ rfl before (by simpa using after)

theorem tryUpgrade_effect {m m' : Machine pw Tid} {t} (call : (m.pc t).call = some .upgrade)
    (before : (m.pc t).locks = false) (returned : m.tryUpgrade t = .ok m') : m.Effect t m' := by
  unfold tryUpgrade at returned
  cases attempted : m.header.shared.upgraded with
  | error fault => simp [attempted, bind, Except.bind] at returned
  | ok result =>
      cases result with
      | none =>
          simp only [attempted, bind, Except.bind, pure, Except.pure, Except.ok.injEq] at returned
          exact .refused (SharedWord.upgraded_eq_none attempted) call returned.symm
      | some new =>
          simp only [attempted, bind, Except.bind, pure, Except.pure, Except.ok.injEq] at returned
          exact returned ▸ .goto before rfl

theorem advance_effect {m m' : Machine pw Tid} {t spurious}
    (returned : m.advance t spurious = .ok m') : m.Effect t m' := by
  unfold advance at returned
  cases pc : m.pc t
  case incrementStore upgrade new =>
    simp only [pc, Except.ok.injEq] at returned
    subst returned
    cases upgrade with
    | true => exact .upgraded (.inl ⟨new, pc⟩) rfl
    | false => exact .header ⟨rfl, rfl, rfl⟩ rfl (by rw [pc]; rfl) (by simp [Pc.locks])
  case upgradeLoad =>
    simp only [pc] at returned
    exact tryUpgrade_effect (by rw [pc]; rfl) (by rw [pc]; rfl) returned
  case upgradeExchange old new =>
    simp only [pc] at returned
    split at returned
    · rename_i exchanged
      cases returned
      have exchanged : m.header.shared = old := (exchanges_iff.mp exchanged).2
      exact .upgraded (.inr ⟨new, exchanged ▸ pc⟩) rfl
    · exact tryUpgrade_effect (by rw [pc]; rfl) (by rw [pc]; rfl) returned
  case releaseImplicit =>
    simp only [pc, Except.ok.injEq] at returned
    exact .release pc returned.symm
  case downgradeExchange old =>
    have reloads : m.Effect t (m.goto t (.downgradeExchange m.weakCount)) :=
      .goto (by rw [pc]; rfl) rfl
    simp only [pc] at returned
    split at returned
    · cases returned
      exact reloads
    · rename_i unlocked
      split at returned
      · cases returned
      · rename_i below
        split at returned
        · rename_i exchanged
          cases returned
          have exchanged : m.weakCount = old := (exchanges_iff.mp exchanged).2
          subst exchanged
          exact .acquireWeak (.inr ⟨pc, unlocked⟩) (by omega) rfl
        · cases returned
          exact reloads
  case weakIncrement =>
    simp only [pc] at returned
    split at returned
    · cases returned
    · rename_i below
      cases returned
      exact .acquireWeak (.inl pc) (by omega) rfl
  case weakDecrement =>
    simp only [pc, Except.ok.injEq] at returned
    exact .releaseWeak pc returned.symm
  case uniqueLock =>
    simp only [pc] at returned
    split at returned
    · rename_i free
      cases returned
      exact .lock pc free rfl
    · cases returned
      exact .goto (by rw [pc]; rfl) rfl
  case uniqueSharedLoad =>
    simp only [pc, Except.ok.injEq] at returned
    exact .look pc returned.symm
  case uniqueBiasedLoad shared strong weak =>
    simp only [pc, Except.ok.injEq] at returned
    exact .judge pc returned.symm
  case uniqueUnlock result strong weak =>
    simp only [pc, Except.ok.injEq] at returned
    exact .unlock (by rw [pc]; rfl) returned.symm
  -- the accesses to the two header words
  all_goals
    simp only [pc, tryDecrement, tryMerge, bind, Except.bind, pure, Except.pure] at returned
    (repeat' split at returned) <;> simp only [Except.ok.injEq, reduceCtorEq] at returned <;>
      subst returned <;>
      refine .header ⟨rfl, rfl, rfl⟩ rfl (by rw [pc]; rfl) ?_ <;>
      simp only [pc_goto_self, pc, Pc.locks]

end Machine

end BiasedRc
