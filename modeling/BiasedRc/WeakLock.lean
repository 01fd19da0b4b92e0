import BiasedRc.UpgradeRace

/-! # The weak count, its lock and the block it keeps

`is_unique` exchanges a weak count of one for a sentinel and later stores the one
back. All strong handles together hold one weak reference, which the thread that
destroys the value gives up in a step of its own. So whatever the other threads
do, the count is that of the weak handles and of this one reference, or the
sentinel with a single thread to take it away; and the block is deallocated by
the step that gives up the last reference. What can still access it then are the
store that clears the owner after a merge that left handles, and the calls that
deal with an entry of the object in a queue.
-/

namespace BiasedRc

open Tally Transition.System

variable {pw : PointerWidth} {Tid : Type}

namespace Pc

/-- The value is destroyed, and the reference of the strong handles is yet to be given up. -/
def implicit : Pc pw → Nat
  | .releaseImplicit => 1
  | _ => 0

/-- The next access is to the block: all but the one to the owner's queue. -/
def touchesBlock : Pc pw → Bool
  | .idle | .queuePush _ => false
  | _ => true

/-- The store of a merge that destroys nothing, or the first access for a queue entry. -/
def straggles : Pc pw → Bool
  | .slowRelease shouldDrop => !shouldDrop
  | .mergeRelease new => new.sharedCount.value != 0
  | .queueLoad | .mergeLoad _ => true
  | _ => false

theorem implicit_of_ne {pc : Pc pw} (other : pc ≠ .releaseImplicit) : pc.implicit = 0 := by
  cases pc <;> first | rfl | exact absurd rfl other

theorem holdsStrong_of_locks {pc : Pc pw} (locks : pc.locks = true) : pc.holdsStrong = true := by
  cases pc <;> simp [Pc.locks, holdsStrong] at locks ⊢

/-- Who is about to access the block holds it, destroys its value, merges it or straggles. -/
theorem of_touchesBlock {pc : Pc pw} (touches : pc.touchesBlock = true) :
    pc.holdsStrong = true ∨ pc.holdsWeak = true ∨ pc.implicit = 1 ∨ pc.owes = 1 ∨
      (∃ biased, pc = .mergeSharedLoad biased ∨ ∃ old new, pc = .mergeExchange biased old new) ∨
      pc.straggles = true := by
  cases pc with
  | incrementLoad upgrade | incrementStore upgrade _ =>
      cases upgrade <;> simp [holdsStrong, holdsWeak]
  | slowRelease shouldDrop => cases shouldDrop <;> simp [owes, straggles]
  | mergeRelease new =>
      by_cases zero : new.sharedCount.value = 0 <;> simp [owes, straggles, zero]
  | _ => simp [touchesBlock, holdsStrong, holdsWeak, implicit, owes, straggles] at touches ⊢

end Pc

variable [DecidableEq Tid]

namespace Machine

variable [Fintype Tid]

/-- What the strong handles count for: one, until the destroyed value's reference is given up. -/
def implicit (m : Machine pw Tid) : Nat := (1 - m.destroyed) + tally Pc.implicit m.pc

/-- Start states: all counts agree with the handles, and the block is there. -/
structure WeakAgrees (m : Machine pw Tid) : Prop where
  agrees : m.Agrees
  weak : m.weakCount.toNat = total m.weak + 1
  below : m.weakCount.toNat ≤ weakOverflowThreshold + 1
  alive : m.destroyed = 0
  allocated : m.freed = false

/-- All interleavings in which no clone adds to a count of -1. -/
def races (pw : PointerWidth) (Tid : Type) [DecidableEq Tid] [Fintype Tid] :
    Transition.System (Machine pw Tid) (Act Tid) :=
  (ofNext WeakAgrees next).restrict NoCarry

/-- The weak count counts, or is locked by one thread; the block goes with the last reference,
    and what is still to touch it then are stragglers. -/
structure BlockSound (m : Machine pw Tid) : Prop where
  locked : ∀ t, (m.pc t).locks = true → m.weakCount = weakLockedCount ∧ total m.weak = 0 ∧
    m.destroyed = 0 ∧ ∀ t', (m.pc t').locks = true → t' = t
  counted : (∀ t, (m.pc t).locks = false) → m.weakCount.toNat = total m.weak + m.implicit
  freed : m.freed = true ↔ total m.weak = 0 ∧ m.implicit = 0
  late : m.freed = true → m.destroyed = 1 ∧
    ∀ t, (m.pc t).touchesBlock = true → (m.pc t).straggles = true

section Implicit

variable {m m' : Machine pw Tid} {t : Tid}

theorem implicit_goto {p : Pc pw} (before : (m.pc t).implicit = p.implicit) :
    (m.goto t p).implicit = m.implicit := by
  have moved := tally_update Pc.implicit m.pc t p
  simp only [implicit, goto]
  omega

namespace Inv

omit [DecidableEq Tid] in
/-- A value that is not to be destroyed keeps the reference. -/
theorem implicit_of_alive (inv : m.Inv) (alive : ¬ m.Dead) : m.destroyed = 0 ∧ m.implicit = 1 := by
  have undecided := inv.decided.2 alive
  have settling := inv.settling
  have kept : m.destroyed = 0 := by omega
  have none : tally Pc.implicit m.pc = 0 := by
    rw [tally_eq_zero_iff]
    intro t'
    apply Pc.implicit_of_ne
    intro pc
    have destroyed := inv.implicit t' pc
    omega
  exact ⟨kept, by rw [Machine.implicit, kept, none]⟩

omit [DecidableEq Tid] in
theorem implicit_of_strong (inv : m.Inv) (holds : 1 ≤ m.strong t) :
    m.destroyed = 0 ∧ m.implicit = 1 :=
  inv.implicit_of_alive (not_dead_of_strong holds)

end Inv

/-- Only the two steps of a destruction concern the reference of the strong handles. -/
theorem advance_destroyed {spurious} (returned : m.advance t spurious = .ok m') :
    m.pc t = .releaseImplicit ∨
    (m.pc t = .destroy ∧ m'.destroyed = m.destroyed + 1 ∧ m'.pc t = .releaseImplicit) ∨
    (m'.destroyed = m.destroyed ∧ (m.pc t).implicit = 0 ∧ (m'.pc t).implicit = 0) := by
  unfold advance at returned
  cases pc : m.pc t <;>
    simp only [pc, tryUpgrade, tryDecrement, tryMerge, bind, Except.bind, pure, Except.pure]
      at returned <;>
    (repeat' split at returned) <;>
    cases returned <;>
    simp [hold, answer, Pc.implicit, pc]

theorem implicit_advance (inv : m.Inv) {spurious} (other : m.pc t ≠ .releaseImplicit)
    (returned : m.advance t spurious = .ok m') : m'.implicit = m.implicit := by
  have moved := tally_of_others Pc.implicit (advance_frame returned).pc
  rcases (advance_destroyed returned).resolve_left other with ⟨pc, more, pc'⟩ | ⟨same, none, none'⟩
  · have owes := le_tally Pc.owes m.pc t
    have settling := inv.settling
    have once := inv.decided_le
    rw [pc] at owes moved
    rw [pc'] at moved
    simp only [Pc.owes] at owes
    simp only [Pc.implicit] at moved
    simp only [implicit]
    omega
  · simp only [implicit]
    omega

end Implicit

/-- The invariant of all interleavings. -/
structure Weighed (m : Machine pw Tid) : Prop where
  inv : m.Inv
  locked : ∀ t, (m.pc t).locks = true →
    m.weakCount = weakLockedCount ∧ total m.weak = 0 ∧ ∀ t', (m.pc t').locks = true → t' = t
  counted : (∀ t, (m.pc t).locks = false) →
    m.weakCount.toNat = total m.weak + m.implicit ∧ m.weakCount.toNat ≤ weakOverflowThreshold + 1
  freed : m.freed = true ↔ total m.weak = 0 ∧ m.implicit = 0

namespace Weighed

variable {m m' : Machine pw Tid} {t : Tid}

/-- The step of thread `t` takes no lock, gives none back and leaves the weak side as it is. -/
theorem kept (weighed : m.Weighed) (inv : m'.Inv) (pcs : ∀ t', t' ≠ t → m'.pc t' = m.pc t')
    (locks : (m'.pc t).locks = (m.pc t).locks) (weakCount : m'.weakCount = m.weakCount)
    (weak : total m'.weak = total m.weak) (freed : m'.freed = m.freed)
    (implicit : m'.implicit = m.implicit) : m'.Weighed := by
  have same : ∀ t', (m'.pc t').locks = (m.pc t').locks := by
    intro t'
    by_cases own : t' = t
    · rw [own, locks]
    · rw [pcs t' own]
  constructor
  · exact inv
  · intro t' isLocked
    rw [same] at isLocked
    obtain ⟨word, noWeak, only⟩ := weighed.locked t' isLocked
    exact ⟨weakCount.trans word, weak.trans noWeak, fun t'' other => only t'' (same t'' ▸ other)⟩
  · intro isFree
    rw [weakCount, weak, implicit]
    exact weighed.counted fun t' => same t' ▸ isFree t'
  · rw [freed, weak, implicit]
    exact weighed.freed

/-- The step of thread `t` leaves the count unlocked. -/
theorem of_unlocked (inv : m'.Inv) (pcs : ∀ t', t' ≠ t → m'.pc t' = m.pc t')
    (others : ∀ t', t' ≠ t → (m.pc t').locks = false) (own : (m'.pc t).locks = false)
    (counted : m'.weakCount.toNat = total m'.weak + m'.implicit ∧
      m'.weakCount.toNat ≤ weakOverflowThreshold + 1)
    (freed : m'.freed = true ↔ total m'.weak = 0 ∧ m'.implicit = 0) : m'.Weighed := by
  constructor
  · exact inv
  · intro t' isLocked
    have free : (m'.pc t').locks = false := by
      by_cases mine : t' = t
      · rw [mine, own]
      · rw [pcs t' mine, others t' mine]
    rw [free] at isLocked
    cases isLocked
  · exact fun _ => counted
  · exact freed

omit [DecidableEq Tid] in
/-- A weak handle shows that the count is not locked. -/
theorem unlocked_of_weak (weighed : m.Weighed) (holds : 1 ≤ m.weak t) (t' : Tid) :
    (m.pc t').locks = false := by
  rw [Bool.eq_false_iff]
  intro isLocked
  have noWeak := (weighed.locked t' isLocked).2.1
  have bound := le_total m.weak t
  omega

omit [DecidableEq Tid] in
/-- So does a word other than the sentinel. -/
theorem unlocked_of_word (weighed : m.Weighed) (word : m.weakCount ≠ weakLockedCount) (t' : Tid) :
    (m.pc t').locks = false := by
  rw [Bool.eq_false_iff]
  exact fun isLocked => word (weighed.locked t' isLocked).1

omit [DecidableEq Tid] in
/-- So does a destroyed value: the lock is taken through a strong handle. -/
theorem unlocked_of_destroyed (weighed : m.Weighed) (destroyed : 1 ≤ m.destroyed) (t' : Tid) :
    (m.pc t').locks = false := by
  rw [Bool.eq_false_iff]
  intro isLocked
  have holds := weighed.inv.strongHeld t' (Pc.holdsStrong_of_locks isLocked)
  have alive := (weighed.inv.implicit_of_strong holds).1
  omega

theorem acquire (weighed : m.Weighed) (free : ∀ t', (m.pc t').locks = false)
    (below : m.weakCount.toNat ≤ weakOverflowThreshold) (present : 1 ≤ total m.weak + m.implicit)
    (inv : m'.Inv) (pcs : ∀ t', t' ≠ t → m'.pc t' = m.pc t') (own : (m'.pc t).locks = false)
    (weakCount : m'.weakCount = m.weakCount + 1) (freed : m'.freed = m.freed)
    (more : total m'.weak + m'.implicit = total m.weak + m.implicit + 1)
    (positive : 1 ≤ total m'.weak) : m'.Weighed := by
  have counted := (weighed.counted free).1
  apply of_unlocked inv pcs (fun t' _ => free t') own
  · simp only [weakOverflowThreshold] at below ⊢
    simp only [weakCount, BitVec.toNat_add, BitVec.reduceToNat]
    omega
  · rw [freed, weighed.freed]
    omega

/-- A reference is given up, a weak handle's or that of the strong handles. -/
theorem release (weighed : m.Weighed) (free : ∀ t', (m.pc t').locks = false) (inv : m'.Inv)
    (pcs : ∀ t', t' ≠ t → m'.pc t' = m.pc t') (own : (m'.pc t).locks = false)
    (weakCount : m'.weakCount = m.weakCount - 1)
    (freed : m'.freed = (m.freed || m.weakCount == 1))
    (fewer : total m'.weak + m'.implicit + 1 = total m.weak + m.implicit) : m'.Weighed := by
  have counted := weighed.counted free
  have bound := m.weakCount.isLt
  have allocated : m.freed = false := by
    rw [Bool.eq_false_iff]
    intro gone
    have none := weighed.freed.mp gone
    omega
  have last : m.weakCount = 1 ↔ m.weakCount.toNat = 1 := by
    rw [← BitVec.toNat_inj]
    rfl
  apply of_unlocked inv pcs (fun t' _ => free t') own
  · simp only [weakCount, BitVec.toNat_sub, BitVec.reduceToNat]
    omega
  · simp only [freed, allocated, Bool.false_or, beq_iff_eq, last]
    omega

/-- The lock is taken at a count of one: there is the reference of the strong handles. -/
theorem lock (weighed : m.Weighed) (one : m.weakCount = 1) (holds : 1 ≤ m.strong t)
    (inv : (({ m with weakCount := weakLockedCount }).goto t .uniqueSharedLoad).Inv) :
    (({ m with weakCount := weakLockedCount }).goto t .uniqueSharedLoad).Weighed := by
  have free := weighed.unlocked_of_word (by rw [one]; decide)
  have counted := (weighed.counted free).1
  have implicit := (weighed.inv.implicit_of_strong holds).2
  have noWeak : total m.weak = 0 := by
    rw [one] at counted
    simp only [BitVec.reduceToNat] at counted
    omega
  have only : ∀ t', (pc (({ m with weakCount := weakLockedCount }).goto t .uniqueSharedLoad)
      t').locks = true → t' = t := by
    intro t' isLocked
    by_contra other
    rw [pc_goto_of_ne other, free t'] at isLocked
    cases isLocked
  constructor
  · exact inv
  · intro t' isLocked
    exact ⟨rfl, noWeak, fun t'' other => (only t'' other).trans (only t' isLocked).symm⟩
  · intro isFree
    have mine := isFree t
    rw [pc_goto_self] at mine
    cases mine
  · have allocated := weighed.freed
    have same := (inv.implicit_of_strong holds).2
    rw [same, freed_goto, weak_goto, allocated]
    omega

/-- The store gives the lock back; it overwrites the sentinel and nothing else. -/
theorem unlock (weighed : m.Weighed) (mine : (m.pc t).locks = true) (holds : 1 ≤ m.strong t)
    (inv : (({ m with weakCount := 1 }).goto t .idle).Inv) :
    (({ m with weakCount := 1 }).goto t .idle).Weighed := by
  obtain ⟨_, noWeak, only⟩ := weighed.locked t mine
  have before := (weighed.inv.implicit_of_strong holds).2
  have after := (inv.implicit_of_strong holds).2
  have free : ∀ t', t' ≠ t → (m.pc t').locks = false := by
    intro t' other
    rw [Bool.eq_false_iff]
    exact fun isLocked => other (only t' isLocked)
  apply of_unlocked (t := t) inv (fun _ => pc_goto_of_ne) free (by rw [pc_goto_self]; rfl)
  · rw [after, weak_goto, noWeak]
    exact ⟨rfl, show 1 ≤ weakOverflowThreshold + 1 by omega⟩
  · have allocated := weighed.freed
    rw [after, freed_goto, weak_goto, allocated]
    omega

theorem advance (weighed : m.Weighed) {spurious}
    (noCarry : m.pc t = .sharedIncrement → m.header.shared.sharedCount.value ≠ -1)
    (returned : m.advance t spurious = .ok m') : m'.Weighed := by
  have inv := weighed.inv.advance noCarry returned
  have frame := advance_frame returned
  by_cases last : m.pc t = .releaseImplicit
  · have free := weighed.unlocked_of_destroyed (weighed.inv.implicit t last)
    simp only [Machine.advance, last, Except.ok.injEq] at returned
    have moved := tally_update Pc.implicit m.pc t .idle
    rw [last] at moved
    subst returned
    apply weighed.release (t := t) free inv frame.pc (by rw [pc_goto_self]; rfl) rfl rfl
    simp only [Pc.implicit] at moved
    simp only [implicit, goto]
    omega
  have same := implicit_advance weighed.inv last returned
  cases advance_effect returned with
  | header effect upgrades before after =>
      obtain ⟨weakCount, weak, freed⟩ := effect
      exact weighed.kept inv frame.pc (after.trans before.symm) weakCount (by rw [weak]) freed same
  | refused dead call result =>
      have before : (m.pc t).locks = false := by
        cases pc : m.pc t <;> simp [pc, Pc.call, Pc.locks] at call ⊢
      subst result
      exact weighed.kept inv frame.pc (by rw [before]; simp [answer, Pc.locks]) rfl rfl rfl same
  | upgraded call result =>
      have before : (m.pc t).locks = false := by
        rcases call with ⟨_, pc⟩ | ⟨_, pc⟩ <;> rw [pc] <;> rfl
      subst result
      exact weighed.kept inv frame.pc (by rw [before]; simp [answer, Pc.locks]) rfl rfl rfl same
  | release call result => exact absurd call last
  | acquireWeak call below result =>
      have present : (∀ t', (m.pc t').locks = false) ∧ 1 ≤ total m.weak + m.implicit := by
        rcases call with pc | ⟨pc, unlocked⟩
        · have holds := weighed.inv.weakHeld t (by rw [pc]; rfl)
          have bound := le_total m.weak t
          exact ⟨weighed.unlocked_of_weak holds, by omega⟩
        · have holds := weighed.inv.strongHeld t (by rw [pc]; rfl)
          have implicit := (weighed.inv.implicit_of_strong holds).2
          exact ⟨weighed.unlocked_of_word unlocked, by omega⟩
      subst result
      apply weighed.acquire (t := t) present.1 below present.2 inv frame.pc
        (by rw [pc_goto_self]; rfl) rfl rfl
      · rw [same, weak_goto, total_raise]
        omega
      · rw [weak_goto, total_raise]
        omega
  | releaseWeak call result =>
      have holds := weighed.inv.weakHeld t (by rw [call]; rfl)
      have lowered := total_lower holds
      subst result
      apply weighed.release (t := t) (weighed.unlocked_of_weak holds) inv frame.pc
        (by rw [pc_goto_self]; rfl) rfl rfl
      have fewer : total (lower m.weak t) + m.implicit + 1 = total m.weak + m.implicit := by omega
      rw [same]
      exact fewer
  | lock call free result =>
      have holds := weighed.inv.strongHeld t (by rw [call]; rfl)
      subst result
      exact weighed.lock free holds inv
  | look call result =>
      subst result
      exact weighed.kept inv frame.pc (by rw [pc_goto_self, call]; rfl) rfl rfl rfl same
  | judge call result =>
      subst result
      exact weighed.kept inv frame.pc (by rw [pc_goto_self, call]; rfl) rfl rfl rfl same
  | unlock call result =>
      have holds := weighed.inv.strongHeld t (Pc.holdsStrong_of_locks call)
      subst result
      exact weighed.unlock call holds inv

theorem next (weighed : m.Weighed) {act : Act Tid} (noCarry : m.NoCarry act)
    (taken : m.next act = some m') : m'.Weighed := by
  have inv := weighed.inv.next noCarry taken
  cases step_of_next taken with
  | @start t op idle _ =>
      exact weighed.kept (t := t) inv (fun _ => pc_goto_of_ne)
        (by rw [pc_goto_self, idle]; cases op <;> rfl) rfl rfl rfl
        (implicit_goto (by rw [idle]; cases op <;> rfl))
  | advance _ returned => exact weighed.advance noCarry returned
  | @merge t _ _ idle _ =>
      exact weighed.kept (t := t) inv (fun _ => pc_goto_of_ne) (by rw [pc_goto_self, idle]; rfl)
        rfl rfl rfl (implicit_goto (m := { m with entry := none }) (by rw [idle]; rfl))
  | @die t _ => exact weighed.kept (t := t) inv (fun _ _ => rfl) rfl rfl rfl rfl rfl
  | @send source _ _ _ => exact weighed.kept (t := source) inv (fun _ _ => rfl) rfl rfl rfl rfl rfl
  | @sendWeak source target _ holds =>
      have same : total (raise (lower m.weak source) target) = total m.weak := by
        rw [total_raise, total_lower holds]
      exact weighed.kept (t := source) inv (fun _ _ => rfl) rfl rfl same rfl rfl

omit [DecidableEq Tid] in
theorem sound (weighed : m.Weighed) : m.BlockSound where
  locked t isLocked := by
    obtain ⟨word, noWeak, only⟩ := weighed.locked t isLocked
    have holds := weighed.inv.strongHeld t (Pc.holdsStrong_of_locks isLocked)
    exact ⟨word, noWeak, (weighed.inv.implicit_of_strong holds).1, only⟩
  counted free := (weighed.counted free).1
  freed := weighed.freed
  late gone := by
    obtain ⟨noWeak, none⟩ := weighed.freed.mp gone
    have settling := weighed.inv.settling
    have once := weighed.inv.decided_le
    simp only [implicit] at none
    have decided : m.decided = 1 := by omega
    have dead : m.Dead := by
      by_contra alive
      have undecided := weighed.inv.decided.2 alive
      omega
    refine ⟨by omega, fun t touches => ?_⟩
    rcases Pc.of_touchesBlock touches with strong | weak | releases | owes | ⟨biased, merges⟩ | late
    · exact absurd dead (Inv.not_dead_of_strong (weighed.inv.strongHeld t strong))
    · have holds := weighed.inv.weakHeld t weak
      have bound := le_total m.weak t
      omega
    · have here := le_tally Pc.implicit m.pc t
      omega
    · have here := le_tally Pc.owes m.pc t
      omega
    · have merged := dead.1
      rcases merges with pc | ⟨old, new, pc⟩ <;>
        rw [(weighed.inv.claimsAt pc).1] at merged <;> cases merged
    · exact late

end Weighed

omit [DecidableEq Tid] in
theorem WeakAgrees.weighed {m : Machine pw Tid} (weakAgrees : m.WeakAgrees) : m.Weighed := by
  have idle := weakAgrees.agrees.idle
  have implicit : m.implicit = 1 := by
    have none : tally Pc.implicit m.pc = 0 :=
      (tally_eq_zero_iff ..).mpr fun t => by rw [idle t]; rfl
    rw [Machine.implicit, weakAgrees.alive, none]
  constructor
  · exact weakAgrees.agrees.inv
  · intro t isLocked
    rw [idle t] at isLocked
    cases isLocked
  · intro _
    rw [implicit]
    exact ⟨weakAgrees.weak, weakAgrees.below⟩
  · rw [implicit, weakAgrees.allocated]
    simp

theorem weighed_of_reachable {m : Machine pw Tid} (reached : (races pw Tid).Reachable m) :
    m.Weighed :=
  reached.invariant (P := Weighed) (fun _ start => start.weighed)
    fun _ _ _ weighed taken => weighed.next taken.1 taken.2

/-- However the calls interleave, the block goes with the last weak handle and the reference all
    strong handles share, and only stragglers are left to touch it. -/
theorem block_sound {m : Machine pw Tid} (reached : (races pw Tid).Reachable m) :
    m.BlockSound :=
  (weighed_of_reachable reached).sound

/-- `owner` owns the object, and another thread has a strong handle as well. -/
def twoBrcs (owner : Tid) : Machine .w64 Tid :=
  .quiet owner ⟨SharedWord.toRaw ⟨.ofInt 1, false, false⟩, BiasedWord.toRaw ⟨some .first, 1⟩⟩ 1
    (fun _ => 1) fun _ => 0

theorem weakAgrees_twoBrcs : (twoBrcs (0 : Fin 2)).WeakAgrees where
  weak := by decide
  below := by decide
  alive := rfl
  allocated := rfl
  agrees :=
  .of_unmerged (by decide) (by decide) (by decide) (by decide) (fun _ => rfl) rfl (by decide) rfl rfl

/-- Thread 1 meets the lock of thread 0 in `downgrade`, and later gives up the last reference. -/
theorem block_sound_at_end : ∃ m : Machine .w64 (Fin 2), m.freed = true ∧ m.BlockSound := by
  obtain ⟨m, reached, gone⟩ := Reachable.of_replay
    (.start weakAgrees_twoBrcs : (races .w64 (Fin 2)).Reachable (twoBrcs 0))
    [.start 0 .isUnique, .advance 0 false, .advance 0 false, .start 1 .downgrade, .advance 1 false,
      .advance 0 false, .advance 0 false, .advance 0 false, .advance 1 false, .advance 1 false,
      .start 1 .drop, .advance 1 false, .advance 1 false, .advance 1 false, .start 0 .drop,
      .advance 0 false, .advance 0 false, .advance 0 false, .advance 0 false, .advance 0 false,
      .start 1 .dropWeak, .advance 1 false]
    (fun m => m.freed = true) (by decide +kernel)
  exact ⟨m, gone, block_sound reached⟩

end Machine

end BiasedRc
