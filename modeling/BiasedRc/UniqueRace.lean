import BiasedRc.MachineEffects

/-! # Uniqueness tests against everything else

A uniqueness test reads three words at different times, under a lock on the weak
count that the code takes with an exchange and gives back with a plain store.
While the lock is held there is no weak handle that could change the weak count
or become a strong one, so the store overwrites nothing and what the test has
seen of the strong counts is all there was to see.
-/

namespace BiasedRc

open Tally Transition.System

variable {pw : PointerWidth} {Tid : Type} [DecidableEq Tid]

/-- Thread `caller` only tests for uniqueness. -/
def Act.Spares (caller : Tid) : Act Tid → Prop
  | .start t op => t = caller → op = .isUnique
  | .merge t => t ≠ caller
  | .send source _ => source ≠ caller
  | _ => True

instance (caller : Tid) : (act : Act Tid) → Decidable (act.Spares caller)
  | .start t op => inferInstanceAs (Decidable (t = caller → op = .isUnique))
  | .merge t => inferInstanceAs (Decidable (t ≠ caller))
  | .send source _ => inferInstanceAs (Decidable (source ≠ caller))
  | .advance _ _ | .die _ | .sendWeak _ _ => inferInstanceAs (Decidable True)

namespace Machine

/-- The caller tests while others run, and no clone adds to a count of -1. -/
def Testing (caller : Tid) (m : Machine pw Tid) (act : Act Tid) : Prop :=
  m.NoCarry act ∧ act.Spares caller

instance (caller : Tid) (m : Machine pw Tid) (act : Act Tid) : Decidable (Testing caller m act) :=
  inferInstanceAs (Decidable (_ ∧ _))

variable [Fintype Tid]

/-- Start states: all counts agree with the handles, and the caller has one. -/
structure CountsAgree (caller : Tid) (m : Machine pw Tid) : Prop where
  agrees : m.Agrees
  weak : m.weakCount.toNat = total m.weak + 1
  holds : 1 ≤ m.strong caller

def uniqueRace (pw : PointerWidth) (Tid : Type) [DecidableEq Tid] [Fintype Tid] (caller : Tid) :
    Transition.System (Machine pw Tid) (Act Tid) :=
  (ofNext (CountsAgree caller) next).restrict (Testing caller)

/-- What a thread about to return `true` has seen, and what all calls leave behind. -/
structure UniqueSound (m : Machine pw Tid) : Prop where
  alone : ∀ t strong weak, m.pc t = .uniqueUnlock true strong weak →
    strong = 1 ∧ weak = 0 ∧ 1 ≤ m.strong t
  balanced : (∀ t, m.pc t = .idle) → m.weakCount.toNat = total m.weak + 1

/-- The call has seen no weak handle. -/
def SawNoWeak : Pc pw → Prop
  | .uniqueBiasedLoad _ _ weak | .uniqueUnlock _ _ weak => weak = 0
  | _ => True

/-- The weak count, locked or not. -/
structure WeakCounted (m : Machine pw Tid) : Prop where
  locked : ∀ t, (m.pc t).locks = true →
    m.weakCount = weakLockedCount ∧ total m.weak = 0 ∧ ∀ t', (m.pc t').locks = true → t' = t
  free : (∀ t, (m.pc t).locks = false) → m.weakCount.toNat = total m.weak + 1
  seen : ∀ t, SawNoWeak (m.pc t)

namespace WeakCounted

variable {m m' : Machine pw Tid} {t : Tid}

theorem sawNoWeak_of_unlocked {pc : Pc pw} (unlocked : pc.locks = false) : SawNoWeak pc := by
  cases pc <;> simp [Pc.locks, SawNoWeak] at unlocked ⊢

/-- The step of thread `t` takes no lock and gives none back. -/
theorem kept (counted : m.WeakCounted) (pcs : ∀ t', t' ≠ t → m'.pc t' = m.pc t')
    (locks : (m'.pc t).locks = (m.pc t).locks) (seen : SawNoWeak (m'.pc t))
    (whenLocked : m.weakCount = weakLockedCount → total m.weak = 0 →
      m'.weakCount = weakLockedCount ∧ total m'.weak = 0)
    (whenFree : m.weakCount.toNat = total m.weak + 1 → m'.weakCount.toNat = total m'.weak + 1) :
    m'.WeakCounted := by
  have same : ∀ t', (m'.pc t').locks = (m.pc t').locks := by
    intro t'
    by_cases own : t' = t
    · rw [own, locks]
    · rw [pcs t' own]
  constructor
  · intro t' isLocked
    rw [same] at isLocked
    obtain ⟨word, noWeak, only⟩ := counted.locked t' isLocked
    obtain ⟨word', noWeak'⟩ := whenLocked word noWeak
    exact ⟨word', noWeak', fun t'' other => only t'' (same t'' ▸ other)⟩
  · intro isFree
    exact whenFree (counted.free fun t' => same t' ▸ isFree t')
  · intro t'
    by_cases own : t' = t
    · rw [own]
      exact seen
    · rw [pcs t' own]
      exact counted.seen t'

omit [DecidableEq Tid] in
/-- A weak handle shows that the count is not locked. -/
theorem unlocked (counted : m.WeakCounted) (holds : 1 ≤ m.weak t) :
    ∀ t', (m.pc t').locks = false := by
  intro t'
  rw [Bool.eq_false_iff]
  intro isLocked
  have noWeak := (counted.locked t' isLocked).2.1
  have bound := le_total m.weak t
  omega

theorem acquire (counted : m.WeakCounted) (free : ∀ t', (m.pc t').locks = false)
    (below : m.weakCount.toNat ≤ weakOverflowThreshold) :
    WeakCounted (({ m with
      weakCount := m.weakCount + 1, weak := raise m.weak t }).goto t .idle) := by
  have count := counted.free free
  refine counted.kept (t := t) (fun _ => pc_goto_of_ne) (by rw [pc_goto_self, free t]; rfl)
    (by rw [pc_goto_self]; trivial) ?_ ?_
  · intro word noWeak
    rw [word] at below
    exact absurd below (by decide)
  · intro _
    simp only [weakOverflowThreshold] at below
    simp only [weakCount_goto, weak_goto, total_raise, BitVec.toNat_add, BitVec.reduceToNat]
    omega

theorem drop (counted : m.WeakCounted) (holds : 1 ≤ m.weak t) {freed : Bool} :
    WeakCounted (({ m with
      weakCount := m.weakCount - 1, weak := lower m.weak t, freed := freed }).goto t .idle) := by
  have free := counted.unlocked holds
  have count := counted.free free
  have bound := m.weakCount.isLt
  have fewer := total_lower holds
  refine counted.kept (t := t) (fun _ => pc_goto_of_ne) (by rw [pc_goto_self, free t]; rfl)
    (by rw [pc_goto_self]; trivial) ?_ ?_
  · intro _ noWeak
    omega
  · intro _
    simp only [weakCount_goto, weak_goto, BitVec.toNat_sub, BitVec.reduceToNat]
    omega

/-- The lock is taken at a count of one, so there is no weak handle. -/
theorem lock (counted : m.WeakCounted) (one : m.weakCount = 1) :
    WeakCounted (({ m with weakCount := weakLockedCount }).goto t .uniqueSharedLoad) := by
  have free : ∀ t', (m.pc t').locks = false := by
    intro t'
    rw [Bool.eq_false_iff]
    intro isLocked
    have word := (counted.locked t' isLocked).1
    rw [one] at word
    revert word
    decide
  have count := counted.free free
  have noWeak : total m.weak = 0 := by
    rw [one] at count
    simp only [BitVec.reduceToNat] at count
    omega
  constructor
  · intro t' isLocked
    have own : ∀ t', (pc (({ m with weakCount := weakLockedCount }).goto t .uniqueSharedLoad)
        t').locks = true → t' = t := by
      intro t' isLocked
      by_contra other
      rw [pc_goto_of_ne other, free t'] at isLocked
      cases isLocked
    have mine := own t' isLocked
    exact ⟨rfl, noWeak, fun t'' other => (own t'' other).trans mine.symm⟩
  · intro isFree
    have mine := isFree t
    rw [pc_goto_self] at mine
    cases mine
  · intro t'
    by_cases own : t' = t
    · rw [own, pc_goto_self]
      trivial
    · rw [pc_goto_of_ne own]
      exact counted.seen t'

/-- The store gives the lock back; it overwrites the sentinel and nothing else. -/
theorem unlock (counted : m.WeakCounted) (mine : (m.pc t).locks = true) :
    WeakCounted (({ m with weakCount := 1 }).goto t .idle) := by
  obtain ⟨_, noWeak, only⟩ := counted.locked t mine
  have free : ∀ t', (pc (({ m with weakCount := 1 }).goto t .idle) t').locks = false := by
    intro t'
    by_cases own : t' = t
    · rw [own, pc_goto_self]
      rfl
    · rw [pc_goto_of_ne own, Bool.eq_false_iff]
      exact fun isLocked => own (only t' isLocked)
  constructor
  · intro t' isLocked
    rw [free t'] at isLocked
    cases isLocked
  · intro _
    simp only [weakCount_goto, weak_goto, noWeak]
    rfl
  · exact fun t' => sawNoWeak_of_unlocked (free t')

end WeakCounted

/-- The invariant of the race. -/
structure Tested (caller : Tid) (m : Machine pw Tid) : Prop where
  inv : m.Inv
  weak : m.WeakCounted
  holds : 1 ≤ m.strong caller
  caller : (m.pc caller).call = none ∨ (m.pc caller).call = some .isUnique

namespace Tested

variable {caller t : Tid} {m m' : Machine pw Tid}

omit [DecidableEq Tid] in
/-- The caller's handle keeps the implicit weak reference where it is. -/
theorem not_released (tested : m.Tested caller) : m.pc t ≠ .releaseImplicit := by
  intro pc
  have destroyed := tested.inv.implicit t pc
  have settling := tested.inv.settling
  have undecided := tested.inv.decided.2 (Inv.not_dead_of_strong tested.holds)
  omega

theorem weak_advance (tested : m.Tested caller) (frame : m.Frame t m') (effect : m.Effect t m') :
    m'.WeakCounted := by
  have weakHeld := tested.inv.weakHeld t
  cases effect with
  | header same upgrades before after =>
      obtain ⟨weakCount, weak, _⟩ := same
      exact tested.weak.kept frame.pc (after.trans before.symm)
        (WeakCounted.sawNoWeak_of_unlocked after) (by rw [weakCount, weak]; exact And.intro)
        (by rw [weakCount, weak]; exact id)
  | refused dead call result =>
      have before : (m.pc t).locks = false := by
        cases pc : m.pc t <;> simp [pc, Pc.call, Pc.locks] at call ⊢
      subst result
      exact tested.weak.kept frame.pc (by rw [before]; simp [answer, Pc.locks])
        (by simp [answer, SawNoWeak]) And.intro id
  | upgraded call result =>
      have before : (m.pc t).locks = false := by
        rcases call with ⟨_, pc⟩ | ⟨_, pc⟩ <;> rw [pc] <;> rfl
      subst result
      exact tested.weak.kept frame.pc (by rw [before]; simp [answer, Pc.locks])
        (by simp [answer, SawNoWeak]) And.intro id
  | release call result => exact absurd call tested.not_released
  | acquireWeak call below result =>
      subst result
      rcases call with pc | ⟨pc, unlocked⟩
      · have holds := weakHeld (by rw [pc]; rfl)
        exact tested.weak.acquire (tested.weak.unlocked holds) below
      · apply tested.weak.acquire ?_ below
        intro t'
        rw [Bool.eq_false_iff]
        exact fun isLocked => unlocked (tested.weak.locked t' isLocked).1
  | releaseWeak call result =>
      subst result
      exact tested.weak.drop (weakHeld (by rw [call]; rfl))
  | lock call free result =>
      subst result
      exact tested.weak.lock free
  | look call result =>
      have mine : (m.pc t).locks = true := by rw [call]; rfl
      have noWeak := (tested.weak.locked t mine).2.1
      subst result
      exact tested.weak.kept frame.pc (by rw [pc_goto_self, mine]; rfl)
        (by rw [pc_goto_self]; exact noWeak) And.intro id
  | judge call result =>
      have mine : (m.pc t).locks = true := by rw [call]; rfl
      have seen := tested.weak.seen t
      rw [call] at seen
      subst result
      exact tested.weak.kept frame.pc (by rw [pc_goto_self, mine]; rfl)
        (by rw [pc_goto_self]; exact seen) And.intro id
  | unlock call result =>
      subst result
      exact tested.weak.unlock call

theorem advance (tested : m.Tested caller) {spurious}
    (noCarry : m.pc t = .sharedIncrement → m.header.shared.sharedCount.value ≠ -1)
    (returned : m.advance t spurious = .ok m') : m'.Tested caller where
  inv := tested.inv.advance noCarry returned
  weak := tested.weak_advance (advance_frame returned) (advance_effect returned)
  holds := by
    have frame := advance_frame returned
    by_cases own : t = caller
    · subst own
      rcases tested.caller with idle | testing
      · have idle : m.pc t = .idle := by
          cases pc : m.pc t <;> simp [pc, Pc.call] at idle ⊢
        simp only [Machine.advance, idle, Except.ok.injEq] at returned
        exact returned ▸ tested.holds
      · rw [frame.unique testing]
        exact tested.holds
    · rw [(frame.handles caller (Ne.symm own)).1]
      exact tested.holds
  caller := by
    have frame := advance_frame returned
    by_cases own : t = caller
    · subst own
      rcases frame.call with idle | same
      · rw [idle]
        exact .inl rfl
      · rw [same]
        exact tested.caller
    · rw [frame.pc caller (Ne.symm own)]
      exact tested.caller

/-- A call begins; it holds no lock. -/
theorem begins (tested : m.Tested caller) {pc : Pc pw} (idle : m.pc t = .idle)
    (inv : (m.goto t pc).Inv) (unlocked : pc.locks = false)
    (call : t = caller → pc.call = some .isUnique) : (m.goto t pc).Tested caller where
  inv := inv
  weak := tested.weak.kept (t := t) (fun _ => pc_goto_of_ne)
    (by rw [pc_goto_self, idle, unlocked]; rfl)
    (by rw [pc_goto_self]; exact WeakCounted.sawNoWeak_of_unlocked unlocked) And.intro id
  holds := tested.holds
  caller := by
    by_cases own : t = caller
    · rw [← own, pc_goto_self]
      exact .inr (call own)
    · rw [pc_goto_of_ne (Ne.symm own)]
      exact tested.caller

theorem next (tested : m.Tested caller) {act : Act Tid} (testing : Testing caller m act)
    (taken : m.next act = some m') : m'.Tested caller := by
  obtain ⟨noCarry, testing⟩ := testing
  have inv := tested.inv.next noCarry taken
  cases step_of_next taken with
  | @start t op idle _ =>
      apply tested.begins idle inv (by cases op <;> rfl)
      intro own
      rw [testing own]
      rfl
  | advance _ returned => exact tested.advance noCarry returned
  | @merge t _ _ idle _ =>
      exact {
        inv := inv
        weak := tested.weak.kept (t := t) (fun _ => pc_goto_of_ne)
          (by rw [pc_goto_self, idle]; rfl) (by rw [pc_goto_self]; trivial) And.intro id
        holds := tested.holds
        caller := by
          rw [pc_goto_of_ne (Ne.symm testing)]
          exact tested.caller }
  | die _ =>
      exact ⟨inv, ⟨tested.weak.locked, tested.weak.free, tested.weak.seen⟩, tested.holds,
        tested.caller⟩
  | @send source target _ _ =>
      have holds : 1 ≤ raise (lower m.strong source) target caller := by
        have more := le_raise (lower m.strong source) target caller
        rw [lower_of_ne _ (Ne.symm testing)] at more
        exact tested.holds.trans more
      exact ⟨inv, ⟨tested.weak.locked, tested.weak.free, tested.weak.seen⟩, holds, tested.caller⟩
  | @sendWeak source target _ holds =>
      have same : total (raise (lower m.weak source) target) = total m.weak := by
        rw [total_raise, total_lower holds]
      have weak : WeakCounted { m with weak := raise (lower m.weak source) target } := by
        constructor
        · simpa only [same] using tested.weak.locked
        · simpa only [same] using tested.weak.free
        · exact tested.weak.seen
      exact ⟨inv, weak, tested.holds, tested.caller⟩

end Tested

omit [DecidableEq Tid] in
theorem CountsAgree.tested {caller : Tid} {m : Machine pw Tid} (counts : m.CountsAgree caller) :
    m.Tested caller where
  inv := counts.agrees.inv
  weak := by
    constructor
    · intro t isLocked
      rw [counts.agrees.idle t] at isLocked
      cases isLocked
    · exact fun _ => counts.weak
    · intro t
      rw [counts.agrees.idle t]
      trivial
  holds := counts.holds
  caller := by
    rw [counts.agrees.idle caller]
    exact .inl rfl

/-- A test that is about to return `true` was made on the only handle, and the lock
    loses no update of the weak count. -/
theorem unique_sound {caller : Tid} {m : Machine pw Tid}
    (reached : (uniqueRace pw Tid caller).Reachable m) : m.UniqueSound := by
  have tested := reached.invariant (P := Tested caller) (fun _ start => start.tested)
    fun _ _ _ tested taken => tested.next taken.1 taken.2
  constructor
  · intro t strong weak pc
    have claims := tested.inv.claims t
    have seen := tested.weak.seen t
    rw [pc] at claims seen
    exact ⟨claims rfl, seen, tested.inv.strongAt pc rfl⟩
  · intro idle
    exact tested.weak.free fun t => by rw [idle t]; rfl

/-- `owner` owns the object; `other` has a strong and a weak handle. -/
def beforeTest (owner other : Tid) : Machine .w64 Tid :=
  .quiet owner ⟨SharedWord.toRaw ⟨.ofInt 1, false, false⟩, BiasedWord.toRaw ⟨some .first, 1⟩⟩ 2
    (fun _ => 1) fun t => if t = other then 1 else 0

theorem countsAgree_beforeTest : (beforeTest (0 : Fin 2) 1).CountsAgree 0 where
  weak := by decide
  holds := by decide
  agrees :=
  .of_unmerged (by decide) (by decide) (by decide) (by decide) (fun _ => rfl) rfl (by decide) rfl rfl

/-- Thread 1 gives up both handles while thread 0 is between its loads. -/
theorem unique_sound_after_drops : ∃ m : Machine .w64 (Fin 2),
    m.pc 0 = .uniqueUnlock true 1 0 ∧ m.UniqueSound := by
  obtain ⟨m, reached, ends⟩ := Reachable.of_replay
    (.start countsAgree_beforeTest : (uniqueRace .w64 (Fin 2) 0).Reachable (beforeTest 0 1))
    [.start 0 .isUnique, .advance 0 false, .start 1 .dropWeak, .advance 1 false, .advance 0 false,
      .start 1 .drop, .advance 1 false, .advance 1 true, .advance 1 false, .advance 0 false,
      .advance 0 false]
    (fun m => m.pc 0 = .uniqueUnlock true 1 0) (by decide +kernel)
  exact ⟨m, ends, unique_sound reached⟩

end Machine

end BiasedRc
