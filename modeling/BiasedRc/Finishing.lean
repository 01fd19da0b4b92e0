import BiasedRc.WeakLock

/-! # Every call comes to an end

An exchange that fails although it is not told to has lost against another one
that succeeded, and a successful exchange brings its own call closer to its end.
Only `downgrade` waits for another thread: for the one that holds the lock on
the weak count, which never waits itself. So whichever way the calls under way
are interleaved, they end after so many accesses.
-/

namespace BiasedRc

open Tally Outcome Transition System

variable {pw : PointerWidth} {Tid : Type}

namespace Pc

/-- The accesses a call has ahead of it, if each exchange succeeds. -/
def remaining : Pc pw → Nat
  | .idle => 0
  | .incrementStore _ _ | .sharedIncrement | .upgradeExchange _ _ | .decrementStore _ | .queuePush _
  | .releaseImplicit | .downgradeExchange _ | .weakIncrement | .weakDecrement
  | .uniqueUnlock _ _ _ => 1
  | .upgradeLoad | .queueLoad | .destroy | .downgradeLoad | .uniqueBiasedLoad _ _ _ => 2
  | .incrementLoad _ | .slowRelease _ | .sharedExchange _ _ | .mergeRelease _
  | .uniqueSharedLoad => 3
  | .slowMerge | .sharedLoad | .mergeExchange _ _ _ | .uniqueLock => 4
  | .decrementLoad | .mergeSharedLoad _ | .uniqueLoad => 5
  | .mergeLoad _ => 6

theorem remaining_idle : (idle : Pc pw).remaining = 0 := rfl

theorem remaining_le (pc : Pc pw) : pc.remaining ≤ 6 := by
  cases pc <;> simp [remaining]

/-- The exchange ahead compares with a word that is no longer there. -/
def outdated (m : Machine pw Tid) : Pc pw → Nat
  | .upgradeExchange old _ | .sharedExchange old _ | .mergeExchange _ old _ =>
      if m.header.shared = old then 0 else 1
  | .downgradeExchange old => if m.weakCount = old then 0 else 1
  | _ => 0

theorem outdated_idle {m : Machine pw Tid} : (idle : Pc pw).outdated m = 0 := rfl

theorem outdated_le (m : Machine pw Tid) (pc : Pc pw) : pc.outdated m ≤ 1 := by
  unfold outdated
  repeat' split
  all_goals omega

theorem outdated_congr {m m' : Machine pw Tid} (shared : m'.header.shared = m.header.shared)
    (weakCount : m'.weakCount = m.weakCount) (pc : Pc pw) : pc.outdated m' = pc.outdated m := by
  cases pc <;> simp only [outdated, shared, weakCount]

end Pc

variable [DecidableEq Tid]

namespace Machine

/-- An access of a call that is not told to fail. -/
def accesses : Act Tid → Bool
  | .advance _ spurious => !spurious
  | _ => false

/-- A call begins. -/
def begins : Act Tid → Bool
  | .start _ _ | .merge _ => true
  | _ => false

/-- The thread is inside `downgrade`, has read the lock and would read it again. -/
def Spins (m : Machine pw Tid) (t : Tid) : Prop :=
  m.pc t = .downgradeExchange weakLockedCount ∧ m.weakCount = weakLockedCount

instance (m : Machine pw Tid) (t : Tid) : Decidable (m.Spins t) := inferInstanceAs (Decidable (_ ∧ _))

variable {m m' : Machine pw Tid} {t : Tid}

/-- The access brings the call closer to its end, and leaves nothing outdated in it. -/
structure Advances (m : Machine pw Tid) (t : Tid) (m' : Machine pw Tid) : Prop where
  remaining : (m'.pc t).remaining < (m.pc t).remaining
  current : (m'.pc t).outdated m' = 0

/-- The exchange fails, and the call will try it with the word that is there now. -/
structure Retries (m : Machine pw Tid) (t : Tid) (spurious : Bool) (m' : Machine pw Tid) : Prop where
  shared : m'.header.shared = m.header.shared
  weakCount : m'.weakCount = m.weakCount
  remaining : (m'.pc t).remaining = (m.pc t).remaining
  outdated : spurious = false → (m.pc t).outdated m = 1
  current : (m'.pc t).outdated m' = 0

theorem not_exchanges {α : Type} [DecidableEq α] {spurious : Bool} {word old : α}
    (fails : ¬ (!spurious && decide (word = old)) = true) (told : spurious = false) : word ≠ old := by
  intro same
  exact fails (exchanges_iff.mpr ⟨told, same⟩)

theorem advances_goto {p : Pc pw} (closer : p.remaining < (m.pc t).remaining)
    (current : p.outdated m = 0) : m.Advances t (m.goto t p) where
  remaining := by rwa [pc_goto_self]
  current := by rw [pc_goto_self]; exact current

theorem retries_goto {p : Pc pw} {spurious : Bool} (same : p.remaining = (m.pc t).remaining)
    (outdated : spurious = false → (m.pc t).outdated m = 1) (current : p.outdated m = 0) :
    m.Retries t spurious (m.goto t p) where
  shared := rfl
  weakCount := rfl
  remaining := by rwa [pc_goto_self]
  outdated := outdated
  current := by rw [pc_goto_self]; exact current

theorem tryDecrement_eq (returned : m.tryDecrement t = .ok m') :
    ∃ new, m' = m.goto t (.sharedExchange m.header.shared new) := by
  simp only [tryDecrement, bind, Except.bind, pure, Except.pure] at returned
  split at returned
  · cases returned
  · rename_i new _
    cases returned
    exact ⟨new, rfl⟩

theorem tryMerge_eq {biased : BiasedCount} (returned : m.tryMerge t biased = .ok m') :
    ∃ new, m' = m.goto t (.mergeExchange biased m.header.shared new) := by
  simp only [tryMerge, bind, Except.bind, pure, Except.pure] at returned
  split at returned
  · cases returned
  · rename_i new _
    cases returned
    exact ⟨new, rfl⟩

variable [Fintype Tid]

theorem tryUpgrade_eq (returned : m.tryUpgrade t = .ok m') :
    m' = m.answer t false ∨ ∃ new, m' = m.goto t (.upgradeExchange m.header.shared new) := by
  unfold tryUpgrade at returned
  cases attempted : m.header.shared.upgraded with
  | error fault => simp [attempted, bind, Except.bind] at returned
  | ok result =>
      cases result with
      | none =>
          simp only [attempted, bind, Except.bind, pure, Except.pure, Except.ok.injEq] at returned
          exact .inl returned.symm
      | some new =>
          simp only [attempted, bind, Except.bind, pure, Except.pure, Except.ok.injEq] at returned
          exact .inr ⟨new, returned.symm⟩

/-- An access that is not waiting either advances its call or retries an exchange. -/
theorem advances_or_retries {spurious : Bool} (busy : m.pc t ≠ .idle) (ready : ¬ m.Spins t)
    (returned : m.advance t spurious = .ok m') : m.Advances t m' ∨ m.Retries t spurious m' := by
  unfold advance at returned
  cases pc : m.pc t
  case idle => exact absurd pc busy
  case upgradeExchange old new =>
    simp only [pc] at returned
    split at returned
    · cases returned
      exact .inl ⟨by simp [answer, pc, Pc.remaining], by simp [answer, Pc.outdated]⟩
    · rename_i fails
      obtain rfl | ⟨new', rfl⟩ := tryUpgrade_eq returned
      · exact .inl ⟨by simp [answer, pc, Pc.remaining], by simp [answer, Pc.outdated]⟩
      · exact .inr (retries_goto (by rw [pc]; rfl)
          (fun told => by simp [pc, Pc.outdated, not_exchanges fails told]) (by simp [Pc.outdated]))
  case upgradeLoad =>
    simp only [pc] at returned
    obtain rfl | ⟨new, rfl⟩ := tryUpgrade_eq returned
    · exact .inl ⟨by simp [answer, pc, Pc.remaining], by simp [answer, Pc.outdated]⟩
    · exact .inl (advances_goto (by simp [pc, Pc.remaining]) (by simp [Pc.outdated]))
  case sharedLoad =>
    simp only [pc] at returned
    obtain ⟨new, rfl⟩ := tryDecrement_eq returned
    exact .inl (advances_goto (by simp [pc, Pc.remaining]) (by simp [Pc.outdated]))
  case sharedExchange old new =>
    simp only [pc] at returned
    split at returned
    · left
      (repeat' split at returned) <;> cases returned <;>
        constructor <;> simp [pc, Pc.remaining, Pc.outdated]
    · rename_i fails
      obtain ⟨new', rfl⟩ := tryDecrement_eq returned
      exact .inr (retries_goto (by rw [pc]; rfl)
        (fun told => by simp [pc, Pc.outdated, not_exchanges fails told]) (by simp [Pc.outdated]))
  case mergeSharedLoad biased =>
    simp only [pc] at returned
    obtain ⟨new, rfl⟩ := tryMerge_eq returned
    exact .inl (advances_goto (by simp [pc, Pc.remaining]) (by simp [Pc.outdated]))
  case mergeExchange biased old new =>
    simp only [pc] at returned
    split at returned
    · cases returned
      exact .inl ⟨by simp [pc, Pc.remaining], by simp [Pc.outdated]⟩
    · rename_i fails
      obtain ⟨new', rfl⟩ := tryMerge_eq returned
      exact .inr (retries_goto (by rw [pc]; rfl)
        (fun told => by simp [pc, Pc.outdated, not_exchanges fails told]) (by simp [Pc.outdated]))
  case downgradeExchange old =>
    have reloads (outdated : spurious = false → m.weakCount ≠ old) :
        m.Retries t spurious (m.goto t (.downgradeExchange m.weakCount)) :=
      retries_goto (by rw [pc]; rfl) (fun told => by simp [pc, Pc.outdated, outdated told])
        (by simp [Pc.outdated])
    simp only [pc] at returned
    split at returned
    · rename_i locked
      cases returned
      subst locked
      exact .inr (reloads fun _ word => ready ⟨pc, word⟩)
    · split at returned
      · cases returned
      · split at returned
        · cases returned
          exact .inl ⟨by simp [pc, Pc.remaining], by simp [Pc.outdated]⟩
        · rename_i fails
          cases returned
          exact .inr (reloads fun told => not_exchanges fails told)
  -- an access that is no exchange
  all_goals
    left
    simp only [pc] at returned
    (repeat' split at returned) <;> cases returned <;>
      constructor <;> simp [pc, answer, Pc.remaining, Pc.outdated]

/-- What is left to do: each access ahead, and for each the exchanges it can make fail. -/
def effort (m : Machine pw Tid) : Nat :=
  Fintype.card Tid * tally Pc.remaining m.pc + tally (Pc.outdated m) m.pc

omit [DecidableEq Tid] in
theorem effort_idle (idle : ∀ t, m.pc t = .idle) : m.effort = 0 := by
  have remaining : tally Pc.remaining m.pc = 0 :=
    (tally_eq_zero_iff _ _).mpr fun t => by rw [idle t, Pc.remaining_idle]
  have outdated : tally (Pc.outdated m) m.pc = 0 :=
    (tally_eq_zero_iff _ _).mpr fun t => by rw [idle t, Pc.outdated_idle]
  rw [effort, remaining, outdated, Nat.mul_zero]

/-- Each access ahead is worth one more than the exchanges that it can make fail. -/
theorem effort_of_advances (others : ∀ t', t' ≠ t → m'.pc t' = m.pc t')
    (advances : m.Advances t m') : m'.effort < m.effort := by
  have moved := tally_of_others Pc.remaining others
  have fewer := advances.remaining
  have losers : tally (Pc.outdated m') m'.pc < Fintype.card Tid :=
    tally_lt_card (Pc.outdated_le m') advances.current
  have less : tally Pc.remaining m'.pc + 1 ≤ tally Pc.remaining m.pc := by omega
  have worth := Nat.mul_le_mul_left (Fintype.card Tid) less
  rw [Nat.mul_add, Nat.mul_one] at worth
  simp only [effort]
  omega

theorem effort_of_retries {spurious : Bool} (others : ∀ t', t' ≠ t → m'.pc t' = m.pc t')
    (retries : m.Retries t spurious m') : (!spurious).toNat + m'.effort ≤ m.effort := by
  have moved := tally_of_others Pc.remaining others
  have updated := tally_of_others (Pc.outdated m) others
  have same : Pc.outdated m' = Pc.outdated m :=
    funext (Pc.outdated_congr retries.shared retries.weakCount)
  have current := retries.current
  have level : tally Pc.remaining m'.pc = tally Pc.remaining m.pc := by
    have remaining := retries.remaining
    omega
  rw [same] at current
  simp only [effort, same, level]
  cases spurious with
  | true =>
      simp only [Bool.not_true, Bool.toNat_false]
      omega
  | false =>
      have outdated := retries.outdated rfl
      simp only [Bool.not_false, Bool.toNat_true]
      omega

/-- A call that begins has at most six accesses ahead. -/
theorem effort_goto {p : Pc pw} (idle : m.pc t = .idle) (fresh : p.outdated m = 0) :
    (m.goto t p).effort ≤ m.effort + 6 * Fintype.card Tid := by
  have remaining := tally_update Pc.remaining m.pc t p
  have outdated := tally_update (Pc.outdated m) m.pc t p
  have bound := p.remaining_le
  have same : Pc.outdated (m.goto t p) = Pc.outdated m := funext (Pc.outdated_congr rfl rfl)
  rw [fresh, idle, Pc.outdated_idle] at outdated
  rw [idle, Pc.remaining_idle] at remaining
  have ahead : tally Pc.remaining (Function.update m.pc t p) ≤ tally Pc.remaining m.pc + 6 := by
    omega
  have worth := Nat.mul_le_mul_left (Fintype.card Tid) ahead
  rw [Nat.mul_add, Nat.mul_comm _ 6] at worth
  have pcs : (m.goto t p).pc = Function.update m.pc t p := rfl
  simp only [effort, same, pcs]
  omega

/-- No access is one more reading of the lock. -/
def Ready (m : Machine pw Tid) : Act Tid → Prop
  | .advance t _ => ¬ m.Spins t
  | _ => True

instance (m : Machine pw Tid) : (act : Act Tid) → Decidable (m.Ready act)
  | .advance t _ => inferInstanceAs (Decidable (¬ m.Spins t))
  | .start _ _ | .merge _ | .die _ | .send _ _ | .sendWeak _ _ => inferInstanceAs (Decidable True)

/-- Accesses are paid for by the calls that begin. -/
theorem effort_next {act : Act Tid} (ready : m.Ready act) (taken : m.next act = some m') :
    (accesses act).toNat + m'.effort ≤ m.effort + 6 * Fintype.card Tid * (begins act).toNat := by
  cases step_of_next taken with
  | @start t op idle _ =>
      have more := effort_goto (p := op.entryPoint) idle (by cases op <;> rfl)
      simp only [accesses, begins, Bool.toNat_false, Bool.toNat_true]
      omega
  | @advance t spurious _ busy returned =>
      have others := (advance_frame returned).pc
      simp only [accesses, begins, Bool.toNat_false]
      rcases advances_or_retries busy ready returned with advances | retries
      · have less := effort_of_advances others advances
        have small := Bool.toNat_le (!spurious)
        omega
      · have less := effort_of_retries others retries
        omega
  | @merge t id _ idle _ =>
      have more := effort_goto (m := { m with entry := none }) (p := .mergeLoad id) idle rfl
      simp only [accesses, begins, Bool.toNat_false, Bool.toNat_true]
      have same : effort { m with entry := none } = m.effort := rfl
      omega
  | die _ | send _ _ | sendWeak _ _ =>
      simp only [accesses, begins, Bool.toNat_false, Nat.zero_add, Nat.mul_zero, Nat.add_zero]
      exact Nat.le_refl _

/-- One more reading of the lock changes nothing. -/
theorem advance_of_spins {spurious : Bool} (spins : m.Spins t) : m.advance t spurious = .ok m := by
  obtain ⟨pc, word⟩ := spins
  have same : m.goto t (.downgradeExchange m.weakCount) = m := by
    rw [word, goto, ← pc, Function.update_eq_self]
  simp only [advance, pc, if_pos, same]

/-- The holder of the lock waits for nobody. -/
theorem advances_of_locks (locks : (m.pc t).locks = true) :
    ∃ m', m.advance t false = .ok m' ∧ m.Advances t m' := by
  cases pc : m.pc t <;> simp only [pc, Pc.locks, reduceCtorEq] at locks
  case uniqueSharedLoad =>
    exact ⟨_, by simp only [advance, pc]; rfl,
      advances_goto (by simp [pc, Pc.remaining]) (by simp [Pc.outdated])⟩
  case uniqueBiasedLoad shared strong weak =>
    exact ⟨_, by simp only [advance, pc]; rfl,
      advances_goto (by simp [pc, Pc.remaining]) (by simp [Pc.outdated])⟩
  case uniqueUnlock result strong weak =>
    exact ⟨_, by simp only [advance, pc]; rfl, by simp [pc, Pc.remaining], by simp [Pc.outdated]⟩

omit [DecidableEq Tid] in
/-- The lock that a spinning thread waits for is held. -/
theorem Weighed.locks_of_spins (weighed : m.Weighed) (spins : m.Spins t) :
    ∃ t', (m.pc t').locks = true := by
  by_contra unlocked
  simp only [not_exists, Bool.not_eq_true] at unlocked
  have below := (weighed.counted unlocked).2
  rw [spins.2] at below
  revert below
  decide

/-- All interleavings in which no clone adds to a count of -1, without repeated readings of
    the lock. -/
def unlessWaiting (pw : PointerWidth) (Tid : Type) [DecidableEq Tid] [Fintype Tid] :
    Transition.System (Machine pw Tid) (Act Tid) :=
  (ofNext WeakAgrees next).restrict fun m act => m.NoCarry act ∧ m.Ready act

/-- Each call that begins brings at most six accesses a thread with it, spurious failures apart;
    and who waits for the lock waits for a thread that goes on. -/
theorem calls_finish {m m' : Machine pw Tid} {order : List (Act Tid)} (start : m.WeakAgrees)
    (run : Run (unlessWaiting pw Tid) m order m') :
    order.countP accesses ≤ 6 * Fintype.card Tid * order.countP begins ∧
      ∀ t, m'.Spins t → (∀ spurious, m'.advance t spurious = .ok m') ∧
        ∃ t', (m'.pc t').locks = true ∧
          ∃ m'', m'.advance t' false = .ok m'' ∧ m'.Advances t' m'' := by
  constructor
  · have paid : order.countP accesses + m'.effort ≤
        m.effort + 6 * Fintype.card Tid * order.countP begins :=
      run.countP_le fun _ _ _ taken => effort_next taken.1.2 taken.2
    rw [effort_idle start.agrees.idle] at paid
    omega
  · intro t spins
    have weighed : m'.Weighed := run.invariant start.weighed fun _ _ _ weighed taken =>
      weighed.next taken.1.1 taken.2
    obtain ⟨t', locks⟩ := weighed.locks_of_spins spins
    exact ⟨fun _ => advance_of_spins spins, t', locks, advances_of_locks locks⟩

/-- Thread 1 reads the lock that thread 0 has taken. -/
theorem calls_finish_while_locked : ∃ m : Machine .w64 (Fin 2), m.Spins 1 ∧
    ∃ t, (m.pc t).locks = true ∧ ∃ m', m.advance t false = .ok m' ∧ m.Advances t m' := by
  have ends : (replay (guarded (fun m act => m.NoCarry act ∧ m.Ready act) next) (twoBrcs 0)
      [.start 0 .isUnique, .advance 0 false, .advance 0 false, .start 1 .downgrade,
        .advance 1 false]).any (fun m : Machine .w64 (Fin 2) => decide (m.Spins 1)) = true := by
    decide +kernel
  rw [Option.any_eq_true] at ends
  obtain ⟨m, replayed, spins⟩ := ends
  have spins := of_decide_eq_true spins
  have finish := calls_finish weakAgrees_twoBrcs (.of_replay replayed)
  exact ⟨m, spins, (finish.2 1 spins).2⟩

end Machine

end BiasedRc
