import BiasedRc.Header
import BiasedRc.Lib.Outcome
import BiasedRc.Lib.Tally
import BiasedRc.Lib.Transition

/-! # The weak count

The accesses to `weak_count`, one step each, by any number of threads, and the
deallocation they lead to. The strong side is taken at its word: the value is
destroyed once, at a moment when there is no strong handle, and no strong handle
comes up afterwards. All strong handles together own one weak reference, which a
guard gives up after the destructor, whether that returned or unwound.

The addition of `Weak::clone` and its check are two steps, so that the count can
pass the threshold by as many as there are threads between the two.
-/

namespace BiasedRc

open Tally Outcome Transition.System

/-- The next access of a thread to `weak_count`. -/
inductive WeakPc where
  | idle
  /-- `Brc::downgrade`. -/
  | downgradeLoad
  | downgradeExchange (old : BitVec 32)
  /-- `Weak::clone`: the addition, and the check of what it returned. -/
  | cloneAdd
  | cloneCheck (old : BitVec 32)
  /-- `BrcHeader::drop_weak` for a `Weak`, and `drop_weak_slow`. -/
  | dropWeak
  | dropWeakSlow
  /-- `Brc::is_unique`: the exchange, and the store that undoes it. -/
  | uniqueLock
  | uniqueUnlock
  deriving DecidableEq

namespace WeakPc

/-- The call is made through a strong handle of its thread. -/
def holdsStrong : WeakPc → Bool
  | .downgradeLoad | .downgradeExchange _ | .uniqueLock | .uniqueUnlock => true
  | _ => false

/-- The call is made through a weak handle of its thread. -/
def holdsWeak : WeakPc → Bool
  | .cloneAdd | .dropWeak => true
  | _ => false

/-- The call is about to abort the process. -/
def overflowing : WeakPc → Nat
  | .cloneCheck old => if weakOverflowThreshold < old.toNat then 1 else 0
  | _ => 0

/-- The call is about to deallocate. -/
def deallocating : WeakPc → Nat
  | .dropWeakSlow => 1
  | _ => 0

theorem overflowing_le (pc : WeakPc) : pc.overflowing ≤ 1 := by
  cases pc <;> simp only [overflowing]
  case cloneCheck old => split <;> omega
  all_goals omega

end WeakPc

/-- The life of the value and of the weak reference that the strong handles share. -/
inductive ValuePhase where
  | live
  /-- `drop_in_place` runs. -/
  | destroying
  /-- The destructor has returned or unwound; `WeakDropGuard` is dropped next. -/
  | guarded (unwinding : Bool)
  /-- The guard's `drop_weak_slow`. -/
  | deallocating
  | released
  deriving DecidableEq

namespace ValuePhase

/-- The implicit weak reference. -/
def implicit : ValuePhase → Nat
  | .live | .destroying | .guarded _ => 1
  | .deallocating | .released => 0

def dealloc : ValuePhase → Nat
  | .deallocating => 1
  | _ => 0

end ValuePhase

/-- `weak_count`, what the threads are doing to it, and the handles. -/
structure WeakSide (Tid : Type) where
  weakCount : BitVec 32
  pc : Tid → WeakPc
  value : ValuePhase
  strong : Tid → Nat
  weak : Tid → Nat
  deallocated : Nat

inductive WeakCall where
  | downgrade
  | clone
  | drop
  | isUnique
  deriving DecidableEq

def WeakCall.entryPoint : WeakCall → WeakPc
  | .downgrade => .downgradeLoad
  | .clone => .cloneAdd
  | .drop => .dropWeak
  | .isUnique => .uniqueLock

/-- The steps of the threads, and those of the strong side. -/
inductive WeakAct (Tid : Type) where
  | start (t : Tid) (call : WeakCall)
  | advance (t : Tid) (spurious : Bool)
  | send (source target : Tid)
  | sendWeak (source target : Tid)
  /-- A strong handle is made or given up. -/
  | gainStrong (t : Tid)
  | loseStrong (t : Tid)
  /-- The value is destroyed: the destructor begins and ends, and the guard is dropped. -/
  | destroy
  | destroyed (unwinding : Bool)
  | dropGuard
  | dropGuardSlow
  deriving DecidableEq

namespace WeakSide

variable {Tid : Type} [DecidableEq Tid]

def goto (s : WeakSide Tid) (t : Tid) (pc : WeakPc) : WeakSide Tid :=
  { s with pc := Function.update s.pc t pc }

section Goto

variable {s : WeakSide Tid} {t : Tid} {pc : WeakPc}

@[simp] theorem weakCount_goto : (s.goto t pc).weakCount = s.weakCount := rfl

@[simp] theorem value_goto : (s.goto t pc).value = s.value := rfl

@[simp] theorem strong_goto : (s.goto t pc).strong = s.strong := rfl

@[simp] theorem weak_goto : (s.goto t pc).weak = s.weak := rfl

@[simp] theorem deallocated_goto : (s.goto t pc).deallocated = s.deallocated := rfl

@[simp] theorem pc_goto_self : (s.goto t pc).pc t = pc := Function.update_self ..

theorem pc_goto_of_ne {t'} (other : t' ≠ t) : (s.goto t pc).pc t' = s.pc t' :=
  Function.update_of_ne other ..

end Goto

/-- The next access of thread `t`. -/
def advance (s : WeakSide Tid) (t : Tid) (spurious : Bool) : Except Fault (WeakSide Tid) :=
  match s.pc t with
  | .idle => .ok s
  | .downgradeLoad => .ok (s.goto t (.downgradeExchange s.weakCount))
  | .downgradeExchange old =>
      if old = weakLockedCount then .ok (s.goto t (.downgradeExchange s.weakCount))
      else if weakOverflowThreshold < old.toNat then .error .weakRefcntOverflow
      else if !spurious && s.weakCount = old then
        .ok (({ s with weakCount := old + 1, weak := raise s.weak t }).goto t .idle)
      else .ok (s.goto t (.downgradeExchange s.weakCount))
  | .cloneAdd =>
      .ok (({ s with weakCount := s.weakCount + 1, weak := raise s.weak t }).goto t
        (.cloneCheck s.weakCount))
  | .cloneCheck old =>
      if weakOverflowThreshold < old.toNat then .error .weakRefcntOverflow
      else .ok (s.goto t .idle)
  | .dropWeak =>
      .ok (({ s with weakCount := s.weakCount - 1, weak := lower s.weak t }).goto t
        (if s.weakCount = 1 then .dropWeakSlow else .idle))
  | .dropWeakSlow => .ok (({ s with deallocated := s.deallocated + 1 }).goto t .idle)
  | .uniqueLock =>
      if s.weakCount = 1 then .ok (({ s with weakCount := weakLockedCount }).goto t .uniqueUnlock)
      else .ok (s.goto t .idle)
  | .uniqueUnlock => .ok (({ s with weakCount := 1 }).goto t .idle)

def canStart (s : WeakSide Tid) (t : Tid) : WeakCall → Prop
  | .downgrade | .isUnique => 1 ≤ s.strong t
  | .clone | .drop => 1 ≤ s.weak t

instance (s : WeakSide Tid) (t : Tid) (call : WeakCall) : Decidable (s.canStart t call) := by
  cases call <;> exact inferInstanceAs (Decidable (1 ≤ _))

variable [Fintype Tid]

def next (s : WeakSide Tid) : WeakAct Tid → Option (WeakSide Tid)
  | .start t call =>
      if s.pc t = .idle ∧ s.canStart t call then some (s.goto t call.entryPoint) else none
  | .advance t spurious => if s.pc t = .idle then none else (s.advance t spurious).toOption
  | .send source target =>
      if s.pc source = .idle ∧ 1 ≤ s.strong source then
        some { s with strong := raise (lower s.strong source) target }
      else none
  | .sendWeak source target =>
      if s.pc source = .idle ∧ 1 ≤ s.weak source then
        some { s with weak := raise (lower s.weak source) target }
      else none
  | .gainStrong t => if s.value = .live then some { s with strong := raise s.strong t } else none
  | .loseStrong t =>
      if s.pc t = .idle ∧ 1 ≤ s.strong t then some { s with strong := lower s.strong t } else none
  | .destroy =>
      if s.value = .live ∧ total s.strong = 0 then some { s with value := .destroying } else none
  | .destroyed unwinding =>
      if s.value = .destroying then some { s with value := .guarded unwinding } else none
  | .dropGuard =>
      match s.value with
      | .guarded _ => some { s with
          weakCount := s.weakCount - 1
          value := if s.weakCount = 1 then .deallocating else .released }
      | _ => none
  | .dropGuardSlow =>
      if s.value = .deallocating then
        some { s with value := .released, deallocated := s.deallocated + 1 }
      else none

/-- A new object, with its strong handles anywhere. -/
structure Fresh (s : WeakSide Tid) : Prop where
  weakCount : s.weakCount = 1
  idle : ∀ t, s.pc t = .idle
  live : s.value = .live
  noWeak : ∀ t, s.weak t = 0
  allocated : s.deallocated = 0

def system (Tid : Type) [DecidableEq Tid] [Fintype Tid] :
    Transition.System (WeakSide Tid) (WeakAct Tid) :=
  ofNext Fresh next

/-- The weak references there are. -/
def references (s : WeakSide Tid) : Nat := total s.weak + s.value.implicit

/-- How often the allocation is to be deallocated by now. -/
def due (s : WeakSide Tid) : Nat := if s.references = 0 then 1 else 0

/-- The claim of this file about one state. -/
structure Conserved (s : WeakSide Tid) : Prop where
  count : (s.weakCount = weakLockedCount ∧ (∃! t, s.pc t = .uniqueUnlock) ∧ total s.weak = 0) ∨
    ((∀ t, s.pc t ≠ .uniqueUnlock) ∧ s.weakCount.toNat = s.references ∧
      s.weakCount ≠ weakLockedCount)
  /-- Deallocated, or about to be, once and precisely when no reference is left. -/
  once : s.deallocated + tally WeakPc.deallocating s.pc + s.value.dealloc = s.due

/-- The invariant. -/
structure Inv (s : WeakSide Tid) : Prop where
  locked : ∀ t, s.pc t = .uniqueUnlock → s.weakCount = weakLockedCount ∧ total s.weak = 0 ∧
    ∀ t', s.pc t' = .uniqueUnlock → t' = t
  free : (∀ t, s.pc t ≠ .uniqueUnlock) → s.weakCount.toNat = s.references
  bound : s.references ≤ weakOverflowThreshold + 1 + tally WeakPc.overflowing s.pc
  strongHeld : ∀ t, (s.pc t).holdsStrong = true → 1 ≤ s.strong t
  weakHeld : ∀ t, (s.pc t).holdsWeak = true → 1 ≤ s.weak t
  gone : s.value ≠ .live → total s.strong = 0
  once : s.deallocated + tally WeakPc.deallocating s.pc + s.value.dealloc = s.due

namespace Inv

variable {s s' : WeakSide Tid} {t : Tid}

section

omit [DecidableEq Tid]

theorem live_of_strong (inv : s.Inv) (holds : 1 ≤ s.strong t) : s.value = .live := by
  by_contra gone
  have none := inv.gone gone
  have bound := le_total s.strong t
  omega

theorem unlocked_of_weak (inv : s.Inv) (holds : 1 ≤ s.weak t) : ∀ t', s.pc t' ≠ .uniqueUnlock := by
  intro t' locked
  have none := (inv.locked t' locked).2.1
  have bound := le_total s.weak t
  omega

/-- An ordinary count stays below the sentinel while there are few enough threads to
    stand between an addition and its check. -/
theorem below_sentinel (inv : s.Inv) (threads : Fintype.card Tid < 2 ^ 31 - 1) :
    s.references < 2 ^ 32 - 1 := by
  have bound := inv.bound
  have pending := tally_le_card WeakPc.overflowing_le s.pc
  simp only [weakOverflowThreshold] at bound
  omega

end

omit [DecidableEq Tid] in
theorem conserved (inv : s.Inv) (threads : Fintype.card Tid < 2 ^ 31 - 1) : s.Conserved where
  count := by
    by_cases locked : ∃ t, s.pc t = .uniqueUnlock
    · obtain ⟨t, locked⟩ := locked
      obtain ⟨word, noWeak, only⟩ := inv.locked t locked
      exact .inl ⟨word, ⟨t, locked, only⟩, noWeak⟩
    · rw [not_exists] at locked
      have count := inv.free locked
      have below := inv.below_sentinel threads
      refine .inr ⟨locked, count, ?_⟩
      intro sentinel
      rw [sentinel] at count
      have value : weakLockedCount.toNat = 2 ^ 32 - 1 := by decide
      omega
  once := inv.once

/-- What there is to know of a step of thread `t`. -/
structure Moves (s : WeakSide Tid) (t : Tid) (s' : WeakSide Tid) : Prop where
  pcs : ∀ t', t' ≠ t → s'.pc t' = s.pc t'
  weaks : ∀ t', t' ≠ t → s'.weak t' = s.weak t'
  strong : s'.strong = s.strong
  value : s'.value = s.value
  locked : s'.pc t = .uniqueUnlock → s'.weakCount = weakLockedCount ∧ total s'.weak = 0 ∧
    ∀ t', t' ≠ t → s.pc t' ≠ .uniqueUnlock
  elsewhere : s'.pc t ≠ .uniqueUnlock → ∀ t', s.pc t' = .uniqueUnlock →
    t' = t ∨ s'.weakCount = s.weakCount ∧ total s'.weak = total s.weak
  free : s'.pc t ≠ .uniqueUnlock → (∀ t', t' ≠ t → s.pc t' ≠ .uniqueUnlock) →
    s'.weakCount.toNat = s'.references
  bound : s'.references + (s.pc t).overflowing ≤ s.references + (s'.pc t).overflowing ∨
    s'.references ≤ weakOverflowThreshold + 1
  strongHeld : (s'.pc t).holdsStrong = true → 1 ≤ s.strong t
  weakHeld : (s'.pc t).holdsWeak = true → 1 ≤ s'.weak t
  once : s'.deallocated + (s'.pc t).deallocating + s.due =
    s.deallocated + (s.pc t).deallocating + s'.due

omit [DecidableEq Tid] in
theorem strongAt (inv : s.Inv) {old : WeakPc} (pc : s.pc t = old) (holds : old.holdsStrong = true) :
    1 ≤ s.strong t := inv.strongHeld t (pc ▸ holds)

omit [DecidableEq Tid] in
theorem weakAt (inv : s.Inv) {old : WeakPc} (pc : s.pc t = old) (holds : old.holdsWeak = true) :
    1 ≤ s.weak t := inv.weakHeld t (pc ▸ holds)

theorem moves (inv : s.Inv) (moves : Moves s t s') : s'.Inv where
  locked := by
    intro t' locked
    by_cases here : s'.pc t = .uniqueUnlock
    · obtain ⟨word, noWeak, others⟩ := moves.locked here
      have only : ∀ t', s'.pc t' = .uniqueUnlock → t' = t := by
        intro t' locked
        by_contra other
        exact others t' other (moves.pcs t' other ▸ locked)
      exact ⟨word, noWeak, fun t'' other => (only t'' other).trans (only t' locked).symm⟩
    · have other : ∀ {t'}, s'.pc t' = .uniqueUnlock → t' ≠ t :=
        fun locked own => here (own ▸ locked)
      have before := moves.pcs t' (other locked) ▸ locked
      obtain ⟨word, noWeak, only⟩ := inv.locked t' before
      obtain ⟨sameWord, sameWeak⟩ := (moves.elsewhere here t' before).resolve_left (other locked)
      exact ⟨sameWord.trans word, sameWeak.trans noWeak, fun t'' locked'' =>
        only t'' (moves.pcs t'' (other locked'') ▸ locked'')⟩
  free free := moves.free (free t) fun t' other => moves.pcs t' other ▸ free t'
  bound := by
    have moved := tally_of_others WeakPc.overflowing moves.pcs
    have bound := inv.bound
    rcases moves.bound with change | low <;> omega
  strongHeld := by
    intro t' held
    rw [moves.strong]
    by_cases own : t' = t
    · subst own
      exact moves.strongHeld held
    · exact inv.strongHeld t' (moves.pcs t' own ▸ held)
  weakHeld := by
    intro t' held
    by_cases own : t' = t
    · subst own
      exact moves.weakHeld held
    · rw [moves.weaks t' own]
      exact inv.weakHeld t' (moves.pcs t' own ▸ held)
  gone := by
    rw [moves.value, moves.strong]
    exact inv.gone
  once := by
    have moved := tally_of_others WeakPc.deallocating moves.pcs
    have once := inv.once
    have change := moves.once
    rw [moves.value]
    omega

/-- An access that leaves all counts alone. -/
theorem goto (inv : s.Inv) {old new : WeakPc} (pc : s.pc t = old) (before : old ≠ .uniqueUnlock)
    (after : new ≠ .uniqueUnlock) (overflowing : old.overflowing = new.overflowing)
    (deallocating : new.deallocating = old.deallocating)
    (strongHeld : new.holdsStrong = true → 1 ≤ s.strong t)
    (weakHeld : new.holdsWeak = true → 1 ≤ s.weak t) : (s.goto t new).Inv := by
  subst pc
  apply inv.moves (t := t)
  exact {
    pcs := fun _ => pc_goto_of_ne
    weaks := fun _ _ => rfl
    strong := rfl
    value := rfl
    locked := fun locked => absurd (pc_goto_self.symm.trans locked) after
    elsewhere := fun _ _ _ => .inr ⟨rfl, rfl⟩
    free := by
      intro _ others
      apply inv.free
      intro t'
      by_cases own : t' = t
      · exact own ▸ before
      · exact others t' own
    bound := .inl (by rw [pc_goto_self, overflowing]; exact Nat.le_refl _)
    strongHeld := by rwa [pc_goto_self]
    weakHeld := by rwa [pc_goto_self]
    once := by rw [pc_goto_self, deallocating]; rfl }

/-- An access that makes a weak handle while the count is not locked. -/
theorem acquire (inv : s.Inv) (threads : Fintype.card Tid < 2 ^ 31 - 1) {pc : WeakPc}
    (free : ∀ t', s.pc t' ≠ .uniqueUnlock) (referenced : 1 ≤ s.references)
    (before : (s.pc t).overflowing = 0 ∧ (s.pc t).deallocating = 0)
    (after : pc ≠ .uniqueUnlock ∧ pc.deallocating = 0 ∧ pc.holdsStrong = false ∧
      pc.holdsWeak = false)
    (pending : s.references ≤ weakOverflowThreshold ∨ pc.overflowing = 1) :
    Inv (({ s with weakCount := s.weakCount + 1, weak := raise s.weak t }).goto t pc) := by
  have below := inv.below_sentinel threads
  have count := inv.free free
  have more : references (({ s with
      weakCount := s.weakCount + 1, weak := raise s.weak t }).goto t pc) = s.references + 1 := by
    simp only [references, weak_goto, value_goto, total_raise]
    omega
  apply inv.moves (t := t)
  exact {
    pcs := fun _ => pc_goto_of_ne
    weaks := fun _ => raise_of_ne _
    strong := rfl
    value := rfl
    locked := fun locked => absurd (pc_goto_self.symm.trans locked) after.1
    elsewhere := fun _ t' locked => absurd locked (free t')
    free := by
      intro _ _
      rw [more]
      simp only [weakCount_goto, BitVec.toNat_add, BitVec.reduceToNat]
      omega
    bound := by
      rw [more, pc_goto_self, before.1]
      omega
    strongHeld := by
      rw [pc_goto_self, after.2.2.1]
      rintro ⟨⟩
    weakHeld := by
      rw [pc_goto_self, after.2.2.2]
      rintro ⟨⟩
    once := by
      have undue : s.due = 0 := if_neg (Nat.ne_of_gt referenced)
      have undue' : due (({ s with
          weakCount := s.weakCount + 1, weak := raise s.weak t }).goto t pc) = 0 :=
        if_neg (by rw [more]; omega)
      rw [undue, undue', pc_goto_self, before.2, after.2.1]
      rfl }

/-- `drop_weak` for a weak handle. -/
theorem drop (inv : s.Inv) (pc : s.pc t = .dropWeak) {pc' : WeakPc}
    (after : pc' = .dropWeakSlow ∧ s.weakCount = 1 ∨ pc' = .idle ∧ s.weakCount ≠ 1) :
    Inv (({ s with weakCount := s.weakCount - 1, weak := lower s.weak t }).goto t pc') := by
  have holds := inv.weakAt pc rfl
  have free := inv.unlocked_of_weak holds
  have count := inv.free free
  have fewer := total_lower holds
  have word := s.weakCount.isLt
  have last : s.weakCount = 1 ↔ s.references = 1 := by
    rw [← count]
    constructor
    · intro one
      simp only [one, BitVec.reduceToNat]
    · intro one
      apply BitVec.eq_of_toNat_eq
      simpa only [BitVec.reduceToNat] using one
  have calm : pc'.overflowing = 0 ∧ pc' ≠ .uniqueUnlock ∧ pc'.holdsStrong = false ∧
      pc'.holdsWeak = false := by
    rcases after with ⟨rfl, _⟩ | ⟨rfl, _⟩ <;> exact ⟨rfl, nofun, rfl, rfl⟩
  have less : references (({ s with
      weakCount := s.weakCount - 1, weak := lower s.weak t }).goto t pc') + 1 = s.references := by
    simp only [references, weak_goto, value_goto]
    omega
  apply inv.moves (t := t)
  exact {
    pcs := fun _ => pc_goto_of_ne
    weaks := fun _ => lower_of_ne _
    strong := rfl
    value := rfl
    locked := fun locked => absurd (pc_goto_self.symm.trans locked) calm.2.1
    elsewhere := fun _ t' locked => absurd locked (free t')
    free := by
      intro _ _
      simp only [weakCount_goto, BitVec.toNat_sub, BitVec.reduceToNat]
      omega
    bound := .inl (by rw [pc_goto_self, calm.1, pc]; simp only [WeakPc.overflowing]; omega)
    strongHeld := by
      rw [pc_goto_self, calm.2.2.1]
      nofun
    weakHeld := by
      rw [pc_goto_self, calm.2.2.2]
      nofun
    once := by
      have undue : s.due = 0 := if_neg (by omega)
      rw [undue, pc_goto_self, pc]
      rcases after with ⟨rfl, one⟩ | ⟨rfl, notOne⟩
      · have one := last.mp one
        have now : due (({ s with
            weakCount := s.weakCount - 1, weak := lower s.weak t }).goto t .dropWeakSlow) = 1 :=
          if_pos (by omega)
        rw [now]
        rfl
      · rw [ne_eq, last] at notOne
        have undue' : due (({ s with
            weakCount := s.weakCount - 1, weak := lower s.weak t }).goto t .idle) = 0 :=
          if_neg (by omega)
        rw [undue']
        rfl }

/-- The thread that gave up the last reference deallocates. -/
theorem dropSlow (inv : s.Inv) (pc : s.pc t = .dropWeakSlow) :
    Inv (({ s with deallocated := s.deallocated + 1 }).goto t .idle) := by
  apply inv.moves (t := t)
  exact {
    pcs := fun _ => pc_goto_of_ne
    weaks := fun _ _ => rfl
    strong := rfl
    value := rfl
    locked := fun locked => absurd (pc_goto_self.symm.trans locked) nofun
    elsewhere := fun _ _ _ => .inr ⟨rfl, rfl⟩
    free := by
      intro _ others
      apply inv.free
      intro t'
      by_cases own : t' = t
      · rw [own, pc]
        nofun
      · exact others t' own
    bound := .inl (by rw [pc_goto_self, pc]; exact Nat.le_refl _)
    strongHeld := by rw [pc_goto_self]; nofun
    weakHeld := by rw [pc_goto_self]; nofun
    once := by rw [pc_goto_self, pc]; rfl }

/-- The lock is taken at a count of one, through a strong handle. -/
theorem lock (inv : s.Inv) (pc : s.pc t = .uniqueLock) (one : s.weakCount = 1) :
    Inv (({ s with weakCount := weakLockedCount }).goto t .uniqueUnlock) := by
  have holds := inv.strongAt pc rfl
  have live := inv.live_of_strong holds
  have free : ∀ t', s.pc t' ≠ .uniqueUnlock := by
    intro t' locked
    have word := (inv.locked t' locked).1
    rw [one] at word
    revert word
    decide
  have count := inv.free free
  have noWeak : total s.weak = 0 := by
    simp only [one, BitVec.reduceToNat, references, live, ValuePhase.implicit] at count
    omega
  apply inv.moves (t := t)
  exact {
    pcs := fun _ => pc_goto_of_ne
    weaks := fun _ _ => rfl
    strong := rfl
    value := rfl
    locked := fun _ => ⟨rfl, noWeak, fun t' _ => free t'⟩
    elsewhere := fun _ t' locked => absurd locked (free t')
    free := fun unlocked => absurd pc_goto_self unlocked
    bound := .inl (by rw [pc_goto_self, pc]; exact Nat.le_refl _)
    strongHeld := fun _ => holds
    weakHeld := by rw [pc_goto_self]; nofun
    once := by rw [pc_goto_self, pc]; rfl }

/-- The store gives the lock back. -/
theorem unlock (inv : s.Inv) (pc : s.pc t = .uniqueUnlock) :
    Inv (({ s with weakCount := 1 }).goto t .idle) := by
  have holds := inv.strongAt pc rfl
  have live := inv.live_of_strong holds
  obtain ⟨_, noWeak, only⟩ := inv.locked t pc
  apply inv.moves (t := t)
  exact {
    pcs := fun _ => pc_goto_of_ne
    weaks := fun _ _ => rfl
    strong := rfl
    value := rfl
    locked := fun locked => absurd (pc_goto_self.symm.trans locked) nofun
    elsewhere := fun _ t' locked => .inl (only t' locked)
    free := by
      intro _ _
      simp only [weakCount_goto, references, weak_goto, value_goto, noWeak, live]
      rfl
    bound := .inl (by rw [pc_goto_self, pc]; exact Nat.le_refl _)
    strongHeld := by rw [pc_goto_self]; nofun
    weakHeld := by rw [pc_goto_self]; nofun
    once := by rw [pc_goto_self, pc]; rfl }

theorem advance (inv : s.Inv) (threads : Fintype.card Tid < 2 ^ 31 - 1) {spurious}
    (returned : s.advance t spurious = .ok s') : s'.Inv := by
  unfold WeakSide.advance at returned
  cases pc : s.pc t with
  | idle =>
      simp only [pc, Except.ok.injEq] at returned
      exact returned ▸ inv
  | downgradeLoad =>
      simp only [pc, Except.ok.injEq] at returned
      exact returned ▸ inv.goto pc (by rintro ⟨⟩) (by rintro ⟨⟩) rfl rfl (fun _ => inv.strongAt pc rfl)
        (by rintro ⟨⟩)
  | downgradeExchange old =>
      have holds := inv.strongAt pc rfl
      have reloads : (s.goto t (.downgradeExchange s.weakCount)).Inv :=
        inv.goto pc (by rintro ⟨⟩) (by rintro ⟨⟩) rfl rfl (fun _ => holds) (by rintro ⟨⟩)
      simp only [pc] at returned
      split at returned
      · cases returned
        exact reloads
      · rename_i ordinary
        split at returned
        · cases returned
        · rename_i below
          split at returned
          · rename_i exchanged
            have same : s.weakCount = old := (exchanges_iff.mp exchanged).2
            subst same
            cases returned
            have free : ∀ t', s.pc t' ≠ .uniqueUnlock :=
              fun t' locked => ordinary (inv.locked t' locked).1
            have count := inv.free free
            have referenced : 1 ≤ s.references := by
              simp only [references, inv.live_of_strong holds, ValuePhase.implicit]
              omega
            exact inv.acquire threads free referenced (by rw [pc]; exact ⟨rfl, rfl⟩)
              ⟨(by rintro ⟨⟩), rfl, rfl, rfl⟩ (.inl (by omega))
          · cases returned
            exact reloads
  | cloneAdd =>
      have holds := inv.weakAt pc rfl
      have free := inv.unlocked_of_weak holds
      have count := inv.free free
      have referenced : 1 ≤ s.references := by
        have bound := le_total s.weak t
        simp only [references]
        omega
      have pending : s.references ≤ weakOverflowThreshold ∨
          (WeakPc.cloneCheck s.weakCount).overflowing = 1 := by
        simp only [WeakPc.overflowing, count, ite_eq_left_iff]
        omega
      simp only [pc, Except.ok.injEq] at returned
      exact returned ▸ inv.acquire threads free referenced (by rw [pc]; exact ⟨rfl, rfl⟩)
        ⟨(by rintro ⟨⟩), rfl, rfl, rfl⟩ pending
  | cloneCheck old =>
      simp only [pc] at returned
      split at returned
      · cases returned
      · rename_i below
        cases returned
        have calm : (WeakPc.cloneCheck old).overflowing = 0 := if_neg below
        exact inv.goto pc (by rintro ⟨⟩) (by rintro ⟨⟩) calm rfl (by rintro ⟨⟩) (by rintro ⟨⟩)
  | dropWeak =>
      simp only [pc, Except.ok.injEq] at returned
      subst returned
      split
      · exact inv.drop pc (.inl ⟨rfl, ‹_›⟩)
      · exact inv.drop pc (.inr ⟨rfl, ‹_›⟩)
  | dropWeakSlow =>
      simp only [pc, Except.ok.injEq] at returned
      exact returned ▸ inv.dropSlow pc
  | uniqueLock =>
      simp only [pc] at returned
      split at returned
      · cases returned
        exact inv.lock pc ‹_›
      · cases returned
        exact inv.goto pc (by rintro ⟨⟩) (by rintro ⟨⟩) rfl rfl (by rintro ⟨⟩) (by rintro ⟨⟩)
  | uniqueUnlock =>
      simp only [pc, Except.ok.injEq] at returned
      exact returned ▸ inv.unlock pc

section

omit [DecidableEq Tid]

/-- A step of the strong side before the destructor: only strong handles change. -/
theorem handles (inv : s.Inv) {strong : Tid → Nat}
    (held : ∀ t, (s.pc t).holdsStrong = true → 1 ≤ strong t)
    (gone : s.value ≠ .live → total strong = 0) : Inv { s with strong := strong } where
  locked := inv.locked
  free := inv.free
  bound := inv.bound
  strongHeld := held
  weakHeld := inv.weakHeld
  gone := gone
  once := inv.once

/-- The destructor begins or ends; the implicit reference is still there. -/
theorem phase (inv : s.Inv) {value : ValuePhase} (implicit : value.implicit = s.value.implicit)
    (dealloc : value.dealloc = s.value.dealloc) (none : total s.strong = 0) :
    Inv { s with value := value } := by
  have same : references { s with value := value } = s.references := by
    simp only [references, implicit]
  exact {
    locked := inv.locked
    free := by
      rw [same]
      exact inv.free
    bound := by
      rw [same]
      exact inv.bound
    strongHeld := inv.strongHeld
    weakHeld := inv.weakHeld
    gone := fun _ => none
    once := by
      have once := inv.once
      simp only [due, same, dealloc] at once ⊢
      exact once }

/-- The guard gives up the implicit reference, whichever way the destructor ended. -/
theorem dropGuard (inv : s.Inv) {unwinding} (guarded : s.value = .guarded unwinding) {value}
    (after : value = .deallocating ∧ s.weakCount = 1 ∨ value = .released ∧ s.weakCount ≠ 1) :
    Inv { s with weakCount := s.weakCount - 1, value := value } := by
  have none : total s.strong = 0 := inv.gone (by rw [guarded]; nofun)
  have free : ∀ t, s.pc t ≠ .uniqueUnlock := by
    intro t locked
    have holds := inv.strongHeld t (by rw [locked]; rfl)
    have bound := le_total s.strong t
    omega
  have count := inv.free free
  have word := s.weakCount.isLt
  have implicit : s.value.implicit = 1 := by rw [guarded]; rfl
  have released : value.implicit = 0 := by
    rcases after with ⟨rfl, _⟩ | ⟨rfl, _⟩ <;> rfl
  have last : s.weakCount = 1 ↔ total s.weak = 0 := by
    have all : s.references = total s.weak + 1 := by rw [references, implicit]
    constructor
    · intro one
      simp only [one, BitVec.reduceToNat] at count
      omega
    · intro zero
      apply BitVec.eq_of_toNat_eq
      simp only [BitVec.reduceToNat]
      omega
  exact {
    locked := fun t locked => absurd locked (free t)
    free := by
      intro _
      simp only [references, implicit, released, BitVec.toNat_sub, BitVec.reduceToNat] at count ⊢
      omega
    bound := by
      have bound := inv.bound
      simp only [references, implicit, released] at bound ⊢
      omega
    strongHeld := inv.strongHeld
    weakHeld := inv.weakHeld
    gone := fun _ => none
    once := by
      have once := inv.once
      have undue : s.due = 0 := if_neg (by rw [references, implicit]; omega)
      rw [undue, guarded] at once
      simp only [ValuePhase.dealloc] at once
      rcases after with ⟨rfl, one⟩ | ⟨rfl, notOne⟩
      · have now : due { s with weakCount := s.weakCount - 1, value := .deallocating } = 1 :=
          if_pos (last.mp one)
        rw [now]
        simp only [ValuePhase.dealloc]
        omega
      · rw [ne_eq, last] at notOne
        have undue' : due { s with weakCount := s.weakCount - 1, value := .released } = 0 :=
          if_neg notOne
        rw [undue']
        simp only [ValuePhase.dealloc]
        omega }

theorem dropGuardSlow (inv : s.Inv) (value : s.value = .deallocating) :
    Inv { s with value := .released, deallocated := s.deallocated + 1 } where
  locked := inv.locked
  free := by
    intro free
    have count := inv.free free
    simp only [references, value] at count ⊢
    exact count
  bound := by
    have bound := inv.bound
    simp only [references, value] at bound ⊢
    exact bound
  strongHeld := inv.strongHeld
  weakHeld := inv.weakHeld
  gone _ := inv.gone (by rw [value]; nofun)
  once := by
    have once := inv.once
    have same : due { s with value := .released, deallocated := s.deallocated + 1 } = s.due := by
      simp only [due, references, value]
      rfl
    rw [same, ← once, value]
    simp only [ValuePhase.dealloc]
    omega

end

omit [Fintype Tid] in
/-- A handle that a call is made through stays with its thread. -/
theorem held_elsewhere {handles : Tid → Nat} {source target t' : Tid} {held : WeakPc → Bool}
    (idle : s.pc source = .idle) (atIdle : held .idle = false)
    (before : held (s.pc t') = true → 1 ≤ handles t') (holds : held (s.pc t') = true) :
    1 ≤ raise (lower handles source) target t' := by
  have other : t' ≠ source := by
    rintro rfl
    rw [idle, atIdle] at holds
    cases holds
  have more := le_raise (lower handles source) target t'
  rw [lower_of_ne _ other] at more
  exact (before holds).trans more

theorem next (inv : s.Inv) (threads : Fintype.card Tid < 2 ^ 31 - 1) {act : WeakAct Tid}
    (taken : s.next act = some s') : s'.Inv := by
  cases act with
  | start t call =>
      simp only [WeakSide.next, Option.ite_none_right_eq_some, Option.some.injEq] at taken
      obtain ⟨⟨idle, holds⟩, rfl⟩ := taken
      cases call <;>
        exact inv.goto idle (by rintro ⟨⟩) (by rintro ⟨⟩) rfl rfl
          (by first | exact fun _ => holds | rintro ⟨⟩) (by first | exact fun _ => holds | rintro ⟨⟩)
  | advance t spurious =>
      simp only [WeakSide.next, Option.ite_none_left_eq_some, toOption_eq_some] at taken
      exact inv.advance threads taken.2
  | send source target =>
      simp only [WeakSide.next, Option.ite_none_right_eq_some, Option.some.injEq] at taken
      obtain ⟨⟨idle, holds⟩, rfl⟩ := taken
      have live := inv.live_of_strong holds
      exact inv.handles (fun t => held_elsewhere idle rfl (inv.strongHeld t))
        fun gone => absurd live gone
  | sendWeak source target =>
      simp only [WeakSide.next, Option.ite_none_right_eq_some, Option.some.injEq] at taken
      obtain ⟨⟨idle, holds⟩, rfl⟩ := taken
      have same : total (raise (lower s.weak source) target) = total s.weak := by
        rw [total_raise, total_lower holds]
      have references : references { s with weak := raise (lower s.weak source) target } =
          s.references := by
        simp only [WeakSide.references, same]
      exact {
        locked := by
          simp only [same]
          exact inv.locked
        free := by
          rw [references]
          exact inv.free
        bound := by
          rw [references]
          exact inv.bound
        strongHeld := inv.strongHeld
        weakHeld := fun t => held_elsewhere idle rfl (inv.weakHeld t)
        gone := inv.gone
        once := by
          rw [due, references]
          exact inv.once }
  | gainStrong t =>
      simp only [WeakSide.next, Option.ite_none_right_eq_some, Option.some.injEq] at taken
      obtain ⟨live, rfl⟩ := taken
      exact inv.handles (fun t' held => (inv.strongHeld t' held).trans (le_raise ..))
        fun gone => absurd live gone
  | loseStrong t =>
      simp only [WeakSide.next, Option.ite_none_right_eq_some, Option.some.injEq] at taken
      obtain ⟨⟨idle, holds⟩, rfl⟩ := taken
      have live := inv.live_of_strong holds
      apply inv.handles ?_ fun gone => absurd live gone
      intro t' held
      have other : t' ≠ t := by
        rintro rfl
        rw [idle] at held
        cases held
      rw [lower_of_ne _ other]
      exact inv.strongHeld t' held
  | destroy =>
      simp only [WeakSide.next, Option.ite_none_right_eq_some, Option.some.injEq] at taken
      obtain ⟨⟨live, none⟩, rfl⟩ := taken
      exact inv.phase (by rw [live]; rfl) (by rw [live]; rfl) none
  | destroyed unwinding =>
      simp only [WeakSide.next, Option.ite_none_right_eq_some, Option.some.injEq] at taken
      obtain ⟨destroying, rfl⟩ := taken
      exact inv.phase (by rw [destroying]; rfl) (by rw [destroying]; rfl)
        (inv.gone (by rw [destroying]; rintro ⟨⟩))
  | dropGuard =>
      simp only [WeakSide.next] at taken
      split at taken
      · rename_i unwinding guarded
        cases taken
        split
        · exact inv.dropGuard guarded (.inl ⟨rfl, ‹_›⟩)
        · exact inv.dropGuard guarded (.inr ⟨rfl, ‹_›⟩)
      · cases taken
  | dropGuardSlow =>
      simp only [WeakSide.next, Option.ite_none_right_eq_some, Option.some.injEq] at taken
      obtain ⟨value, rfl⟩ := taken
      exact inv.dropGuardSlow value

end Inv

omit [DecidableEq Tid] in
theorem Fresh.inv {s : WeakSide Tid} (fresh : s.Fresh) : s.Inv where
  locked t locked := by
    rw [fresh.idle t] at locked
    cases locked
  free _ := by
    have noWeak := (total_eq_zero_iff s.weak).mpr fresh.noWeak
    simp only [references, noWeak, fresh.live, fresh.weakCount]
    rfl
  bound := by
    have noWeak := (total_eq_zero_iff s.weak).mpr fresh.noWeak
    simp only [references, noWeak, fresh.live, ValuePhase.implicit]
    omega
  strongHeld t held := by
    rw [fresh.idle t] at held
    cases held
  weakHeld t held := by
    rw [fresh.idle t] at held
    cases held
  gone gone := absurd fresh.live gone
  once := by
    have quiet : tally WeakPc.deallocating s.pc = 0 :=
      (tally_eq_zero_iff ..).mpr fun t => by rw [fresh.idle t]; rfl
    have undue : s.due = 0 := if_neg (by rw [references, fresh.live]; exact Nat.succ_ne_zero _)
    rw [quiet, undue, fresh.allocated, fresh.live]
    rfl

/-- The weak count stands for the weak references, and the last of them deallocates. -/
theorem weak_count_conserved (threads : Fintype.card Tid < 2 ^ 31 - 1) {s : WeakSide Tid}
    (reached : (system Tid).Reachable s) : s.Conserved := by
  have inv := reached.invariant (P := Inv) (fun _ fresh => fresh.inv)
    fun _ _ _ inv taken => inv.next threads taken
  exact inv.conserved threads

/-- Thread 1 keeps a weak handle past the value, whose destructor unwinds. -/
theorem weak_count_conserved_at_end : ∃ s : WeakSide (Fin 2), s.deallocated = 1 ∧ s.Conserved := by
  have fresh : Fresh (⟨1, fun _ => .idle, .live, fun _ => 0, fun _ => 0, 0⟩ : WeakSide (Fin 2)) :=
    ⟨rfl, fun _ => rfl, rfl, fun _ => rfl, rfl⟩
  obtain ⟨s, reached, ends⟩ := Reachable.of_replay
    (.start fresh : ((system (Fin 2)).restrict fun _ _ => True).Reachable _)
    [.gainStrong 0, .start 0 .isUnique, .advance 0 false, .advance 0 false, .start 0 .downgrade,
      .advance 0 false, .advance 0 true, .advance 0 false, .sendWeak 0 1, .start 1 .clone,
      .advance 1 false, .advance 1 false, .start 1 .drop, .advance 1 false, .loseStrong 0, .destroy,
      .destroyed true, .dropGuard, .start 1 .drop, .advance 1 false, .advance 1 false]
    (fun s => s.deallocated = 1) (by decide +kernel)
  exact ⟨s, ends, weak_count_conserved (by decide) reached.of_restrict⟩

end WeakSide

end BiasedRc
