import BiasedRc.MergeRace
import BiasedRc.WeakLock

/-! # The queue entry against all other calls

A call that brings the shared count of an unmerged object below zero takes the
object's entry into its hands and pushes it to the queue of the owner. From then on
the entry vouches for two facts: the counts are unmerged and the shared count is
negative, so that the owner cannot reach its last biased reference. Both last until
the entry is merged, whatever the other calls do, as long as none of them lifts the
count from -1. The checks of `explicit_merge` then never fire, and an access fails
only when a count runs out of bits.
-/

namespace BiasedRc

open Tally Transition.System

variable {pw : PointerWidth} {Tid : Type} [DecidableEq Tid]

namespace Machine

/-- The counts are yet to be merged, and the owner has handles of other threads to pay for. -/
def Waits (m : Machine pw Tid) : Prop :=
  m.header.shared.merged = false ∧ m.header.shared.sharedCount.value < 0

/-- The object waits for the thread with this id. -/
def WaitsFor (m : Machine pw Tid) (id : ShortThreadId) : Prop :=
  m.Waits ∧ m.header.biased.ownerId = some id

/-- The next access of thread `t` adds one to the shared count. -/
def Lifts (m : Machine pw Tid) (t : Tid) (spurious : Bool) : Bool :=
  match m.pc t with
  | .sharedIncrement => true
  | .upgradeExchange old _ => !spurious && m.header.shared = old
  | _ => false

/-- The step does not lift a shared count of -1. -/
def NoLift (m : Machine pw Tid) : Act Tid → Prop
  | .advance t spurious => m.header.shared.sharedCount.value = -1 → m.Lifts t spurious = false
  | _ => True

instance (m : Machine pw Tid) : (act : Act Tid) → Decidable (m.NoLift act)
  | .advance t spurious => inferInstanceAs
      (Decidable (m.header.shared.sharedCount.value = -1 → m.Lifts t spurious = false))
  | .start _ _ | .merge _ | .die _ | .send _ _ | .sendWeak _ _ => inferInstanceAs (Decidable True)

/-- What the entry in the hands of a call vouches for at `pc`. -/
def Vouches (m : Machine pw Tid) : Pc pw → Prop
  | .queueLoad | .mergeSharedLoad _ | .mergeExchange _ _ _ => m.Waits
  | .queuePush id | .mergeLoad id => m.WaitsFor id
  | .mergeRelease new => 0 ≤ new.sharedCount.value
  | _ => True

omit [DecidableEq Tid] in
/-- No call has the entry there. -/
theorem vouches_of_token {m : Machine pw Tid} {p : Pc pw} (empty : p.token = 0) : m.Vouches p := by
  cases p <;> simp [Vouches, Pc.token] at empty ⊢

variable [Fintype Tid]

/-- The invariant of the entry. -/
structure Entrusted (m : Machine pw Tid) : Prop where
  inv : m.Inv
  entry : ∀ id, m.entry = some id → m.WaitsFor id
  calls : ∀ t, m.Vouches (m.pc t)

/-- The start states: the counts agree with the handles, and an entry is for the owner. -/
structure EntryAgrees (m : Machine pw Tid) : Prop where
  agrees : m.Agrees
  entry : ∀ id, m.entry = some id → m.WaitsFor id

/-- All interleavings in which no call lifts a shared count of -1. -/
def queueRace (pw : PointerWidth) (Tid : Type) [DecidableEq Tid] [Fintype Tid] :
    Transition.System (Machine pw Tid) (Act Tid) :=
  (ofNext EntryAgrees next).restrict NoLift

/-- The entry is one and for the owner of a live object, and no check fails. -/
structure EntrySound (m : Machine pw Tid) : Prop where
  entry : ∀ id, m.entry = some id → m.WaitsFor id ∧ m.destroyed = 0
  once : m.entry.isSome.toNat + tally Pc.token m.pc ≤ 1
  faults : ∀ t spurious fault, m.advance t spurious = .error fault →
    fault = .sharedRefcntOverflow ∨ fault = .weakRefcntOverflow

section Waiting

variable {m m' : Machine pw Tid} {t : Tid}

omit [DecidableEq Tid] in
/-- The owner is not down to its last biased reference. -/
theorem Inv.not_slow_of_waits (inv : m.Inv) (waits : m.Waits) : m.pc t ≠ .slowMerge := by
  intro pc
  have holds := (inv.strongAt pc rfl).trans (le_total m.strong t)
  have one := BiasedWord.decrementBiased_eq_slow (inv.claimsAt pc).2
  obtain ⟨_, _, _, split⟩ := inv.owned waits.1
  have negative := waits.2
  omega

omit [DecidableEq Tid] [Fintype Tid] in
theorem noCarry_of_noLift {spurious} (noLift : m.NoLift (.advance t spurious)) :
    m.NoCarry (.advance t spurious) := by
  intro pc lifted
  have none := noLift lifted
  rw [Lifts, pc] at none
  cases none

omit [DecidableEq Tid] [Fintype Tid] in
/-- The shared count may sink, and it may rise to -1. -/
theorem Waits.of_count (waits : m.Waits)
    (merged : m'.header.shared.merged = m.header.shared.merged)
    (count : m'.header.shared.sharedCount.value ≤ m.header.shared.sharedCount.value ∨
      m'.header.shared.sharedCount.value = m.header.shared.sharedCount.value + 1 ∧
        m.header.shared.sharedCount.value ≠ -1) : m'.Waits := by
  have negative := waits.2
  exact ⟨merged.trans waits.1, by omega⟩

/-- A call without the entry leaves the object waiting for the same thread. -/
theorem Inv.waits_advance (inv : m.Inv) {spurious} (noLift : m.NoLift (.advance t spurious))
    (waits : m.Waits) (empty : (m.pc t).token = 0) (returned : m.advance t spurious = .ok m') :
    m'.Waits ∧ m'.header.biased.ownerId = m.header.biased.ownerId := by
  have claims := inv.claims t
  have computed := inv.coherent t
  have noSlow := inv.not_slow_of_waits (t := t) waits
  have lifts : m.header.shared.sharedCount.value = -1 → m.Lifts t spurious = false := noLift
  unfold Machine.advance at returned
  cases pc : m.pc t <;> rw [pc] at claims computed empty noSlow <;>
    simp only [pc, Machine.tryUpgrade, Machine.tryDecrement, bind, Except.bind, pure, Except.pure]
      at returned
  case slowMerge => exact absurd rfl noSlow
  case slowRelease shouldDrop =>
    have merged := claims.1
    rw [waits.1] at merged
    cases merged
  case queueLoad | queuePush | mergeLoad | mergeSharedLoad | mergeExchange | mergeRelease => cases empty
  case incrementStore upgrade new =>
    have owner := (BiasedWord.attemptIncrement_eq_some claims.2).2.2.1
    split at returned <;> cases returned <;> exact ⟨waits, by simp [answer, hold, owner]⟩
  case decrementStore new =>
    obtain ⟨_, _, positive, _⟩ := inv.owned waits.1
    have owner := (BiasedWord.decrementBiased_eq_store claims.2 positive).1
    cases returned
    exact ⟨waits, by simp [hold, owner]⟩
  case sharedIncrement =>
    have high : m.header.shared.sharedCount.value ≠ -1 := noCarry_of_noLift noLift pc
    split at returned <;> cases returned
    rename_i below
    have added := RawBrcHeader.shared_fetchAddShared high
    have count := SharedCount.value_wrappingSucc (RawBrcHeader.below_of_not_pastThreshold below)
    exact ⟨waits.of_count (by simp [hold, added]) (.inr ⟨by simp [hold, added, count], high⟩), rfl⟩
  case upgradeExchange old new =>
    obtain ⟨_, count, merged, _⟩ := SharedWord.upgraded_eq_some computed
    split at returned
    · rename_i exchanged
      have same : m.header.shared = old := (exchanges_iff.mp exchanged).2
      have high : m.header.shared.sharedCount.value ≠ -1 := by
        intro lifted
        have none := lifts lifted
        simp only [Lifts, pc, exchanged, reduceCtorEq] at none
      subst same
      cases returned
      exact ⟨waits.of_count (by simp [answer, hold, merged]) (.inr ⟨by simp [answer, hold, count], high⟩), rfl⟩
    · (repeat' split at returned) <;> cases returned <;> exact ⟨waits, rfl⟩
  case sharedExchange old new =>
    obtain ⟨count, merged, _⟩ := SharedWord.decremented_eq_ok computed
    split at returned
    · rename_i exchanged
      have same : m.header.shared = old := (exchanges_iff.mp exchanged).2
      subst same
      have sinks : m.header.shared.sharedCount.value - 1 ≤ m.header.shared.sharedCount.value := by omega
      (repeat' split at returned) <;> cases returned <;>
        exact ⟨waits.of_count (by simp [hold, merged]) (.inl (by simp [hold, count])), rfl⟩
    · split at returned <;> cases returned
      exact ⟨waits, rfl⟩
  all_goals
    (repeat' split at returned) <;> cases returned <;> exact ⟨waits, rfl⟩

/-- Only a push enters the object into a queue. -/
theorem entry_advance {spurious} (returned : m.advance t spurious = .ok m') :
    m'.entry = m.entry ∨ ∃ id, m.pc t = .queuePush id ∧
      m' = ({ m with entry := some id }).goto t .idle := by
  unfold advance at returned
  cases pc : m.pc t <;>
    simp only [pc, tryUpgrade, tryDecrement, tryMerge, bind, Except.bind, pure, Except.pure]
      at returned
  case queuePush id =>
    cases returned
    exact .inr ⟨id, rfl, rfl⟩
  all_goals
    (repeat' split at returned) <;> cases returned <;> exact .inl rfl

omit [DecidableEq Tid] in
/-- The call that wins the entry sees the owner in debt. -/
theorem Inv.waits_of_won (inv : m.Inv) {new} (pc : m.pc t = .sharedExchange m.header.shared new)
    (won : m.header.shared.wonQueue new = true) : new.merged = false ∧ new.sharedCount.value < 0 := by
  have computed : m.header.shared.decremented = .ok new := inv.coherentAt pc
  have negative := ((SharedWord.wonQueue_eq_true computed).mp won).2
  obtain ⟨count, merged, _⟩ := SharedWord.decremented_eq_ok computed
  refine ⟨?_, negative⟩
  by_contra isMerged
  rw [merged, Bool.not_eq_false] at isMerged
  have split := inv.merged isMerged
  have holds := (inv.strongAt pc rfl).trans (le_total m.strong t)
  omega

/-- What the call of thread `t` vouches for after its access. -/
theorem Entrusted.vouches_advance (entrusted : m.Entrusted) {spurious}
    (returned : m.advance t spurious = .ok m') : m'.Vouches (m'.pc t) := by
  have inv := entrusted.inv
  have calls := entrusted.calls t
  by_cases empty : (m.pc t).token = 0
  · by_cases after : (m'.pc t).token = 0
    · exact vouches_of_token after
    · obtain ⟨new, pc, won⟩ := exchange_of_queues returned empty after
      have waits := inv.waits_of_won pc won
      simp only [Machine.advance, pc, tryDecrement, bind, Except.bind, pure, Except.pure, won,
        if_true] at returned
      (repeat' split at returned) <;> cases returned
      · simpa [Vouches, Waits, hold] using waits
      · simp [Pc.token] at after
  · have claims := inv.claims t
    have computed := inv.coherent t
    unfold Machine.advance at returned
    cases pc : m.pc t <;> rw [pc] at empty calls claims computed <;>
      simp only [pc, tryMerge, bind, Except.bind, pure, Except.pure] at returned
    case queueLoad =>
      split at returned <;> cases returned
      rename_i owner owned
      rw [pc_goto_self]
      exact ⟨calls, owned⟩
    case queuePush id =>
      cases returned
      simp [Vouches]
    case mergeLoad id =>
      split at returned <;> cases returned
      rw [pc_goto_self]
      exact calls.1
    case mergeSharedLoad biased =>
      split at returned <;> cases returned
      rw [pc_goto_self]
      exact calls
    case mergeExchange biased old new =>
      split at returned
      · rename_i exchanged
        have same : m.header.shared = old := (exchanges_iff.mp exchanged).2
        subst same
        obtain ⟨unmerged, rfl, _⟩ := claims
        obtain ⟨_, count, _, _⟩ := SharedWord.mergedWith_eq_ok computed
        obtain ⟨_, _, _, split⟩ := inv.owned unmerged
        cases returned
        rw [pc_goto_self]
        -- the merged count is that of all handles
        show 0 ≤ new.sharedCount.value
        omega
      · split at returned <;> cases returned
        rw [pc_goto_self]
        exact calls
    case mergeRelease new =>
      split at returned <;> cases returned
      simp only [pc_goto_self]
      split <;> trivial
    all_goals cases empty rfl

omit [DecidableEq Tid] [Fintype Tid] in
/-- What a step leaves waiting it leaves vouched for. -/
theorem Vouches.frame {p : Pc pw} (vouches : m.Vouches p)
    (kept : m.Waits → m'.Waits ∧ m'.header.biased.ownerId = m.header.biased.ownerId) :
    m'.Vouches p := by
  have same (waits : m.Waits) : m'.Waits := (kept waits).1
  have sameFor {id} (waits : m.WaitsFor id) : m'.WaitsFor id :=
    ⟨(kept waits.1).1, (kept waits.1).2.trans waits.2⟩
  cases p with
  | queueLoad | mergeSharedLoad | mergeExchange => exact same vouches
  | queuePush | mergeLoad => exact sameFor vouches
  | _ => exact vouches

omit [DecidableEq Tid] in
theorem Inv.once (inv : m.Inv) : m.entry.isSome.toNat + tally Pc.token m.pc ≤ 1 :=
  inv.tokens.trans (Bool.toNat_le _)

end Waiting

namespace Entrusted

variable {m m' : Machine pw Tid} {t : Tid}

/-- One access of a call. -/
theorem advance (entrusted : m.Entrusted) {spurious} (noLift : m.NoLift (.advance t spurious))
    (returned : m.advance t spurious = .ok m') : m'.Entrusted where
  inv := entrusted.inv.advance (noCarry_of_noLift noLift) returned
  entry := by
    have inv := entrusted.inv
    have bound := inv.once
    have here := le_tally Pc.token m.pc t
    intro id queued
    rcases entry_advance returned with same | ⟨id', pc, rfl⟩
    · rw [same] at queued
      have waits := entrusted.entry id queued
      rw [queued, Option.isSome_some, Bool.toNat_true] at bound
      obtain ⟨still, owner⟩ := inv.waits_advance noLift waits.1 (by omega) returned
      exact ⟨still, owner.trans waits.2⟩
    · have calls := entrusted.calls t
      rw [pc] at calls
      obtain rfl : id' = id := Option.some.inj queued
      exact calls
  calls := by
    have inv := entrusted.inv
    have bound := inv.once
    intro t'
    by_cases own : t' = t
    · subst own
      exact entrusted.vouches_advance returned
    · rw [(advance_frame returned).pc t' own]
      by_cases empty : (m.pc t').token = 0
      · exact vouches_of_token empty
      · have both := add_le_tally Pc.token m.pc own
        exact (entrusted.calls t').frame fun waits =>
          inv.waits_advance noLift waits (by omega) returned

/-- No access changes what a header without accesses vouches for. -/
theorem goto (entrusted : m.Entrusted) {p : Pc pw} (entry) (inv : (Machine.goto { m with entry := entry } t p).Inv)
    (fewer : ∀ id, entry = some id → m.entry = some id) (vouches : m.Vouches p) :
    (Machine.goto { m with entry := entry } t p).Entrusted where
  inv := inv
  entry id queued := entrusted.entry id (fewer id queued)
  calls := by
    intro t'
    by_cases own : t' = t
    · subst own
      rw [pc_goto_self]
      exact vouches
    · rw [pc_goto_of_ne own]
      exact entrusted.calls t'

theorem next (entrusted : m.Entrusted) {act : Act Tid} (noLift : m.NoLift act)
    (taken : m.next act = some m') : m'.Entrusted := by
  have noCarry : m.NoCarry act := by
    cases act with
    | advance t spurious => exact noCarry_of_noLift noLift
    | _ => trivial
  have inv := entrusted.inv.next noCarry taken
  cases step_of_next taken with
  | @start t op _ _ =>
      refine entrusted.goto m.entry inv (fun _ queued => queued) ?_
      exact vouches_of_token (by cases op <;> rfl)
  | advance _ returned => exact entrusted.advance noLift returned
  | merge queued _ _ => exact entrusted.goto none inv (by rintro _ ⟨⟩) (entrusted.entry _ queued)
  | die _ | send _ _ | sendWeak _ _ => exact ⟨inv, entrusted.entry, entrusted.calls⟩

/-- The checks of a call that holds the entry do not fire, and no count falls too low. -/
theorem faults (entrusted : m.Entrusted) {spurious fault} (stopped : m.advance t spurious = .error fault) :
    fault = .sharedRefcntOverflow ∨ fault = .weakRefcntOverflow := by
  have inv := entrusted.inv
  have calls := entrusted.calls t
  have claims := inv.claims t
  have upgrades (failed : m.tryUpgrade t = .error fault) : fault = .sharedRefcntOverflow := by
    unfold tryUpgrade at failed
    cases attempted : m.header.shared.upgraded with
    | error _ =>
        simp only [attempted, bind, Except.bind, Except.error.injEq] at failed
        exact failed ▸ SharedWord.upgraded_eq_error attempted
    | ok result => cases result <;> simp [attempted, bind, Except.bind, pure, Except.pure] at failed
  have decrements : m.tryDecrement t ≠ .error fault := by
    unfold tryDecrement
    cases attempted : m.header.shared.decremented with
    | error _ => exact absurd attempted inv.counts.decremented_ne_error
    | ok new => simp [bind, Except.bind, pure, Except.pure]
  have merges {biased} (waits : m.Waits) : m.tryMerge t biased ≠ .error fault := by
    unfold tryMerge
    cases attempted : m.header.shared.mergedWith biased with
    | error _ =>
        -- only a positive count can overflow
        have positive := (SharedWord.mergedWith_eq_error attempted waits.1).2
        have negative := waits.2
        omega
    | ok new => simp [bind, Except.bind, pure, Except.pure]
  unfold Machine.advance at stopped
  cases pc : m.pc t <;> rw [pc] at calls claims <;> simp only [pc] at stopped
  case sharedIncrement =>
    split at stopped <;> cases stopped
    exact .inl rfl
  case upgradeLoad => exact .inl (upgrades stopped)
  case upgradeExchange old new =>
    split at stopped
    · cases stopped
    · exact .inl (upgrades stopped)
  case sharedLoad => exact absurd stopped decrements
  case sharedExchange old new =>
    split at stopped
    · (repeat' split at stopped) <;> cases stopped
    · exact absurd stopped decrements
  case queueLoad =>
    obtain ⟨id, owner, _⟩ := inv.owned calls.1
    simp [owner] at stopped
  case mergeLoad id =>
    rw [if_neg (not_not_intro calls.2)] at stopped
    cases stopped
  case mergeSharedLoad biased => exact absurd stopped (merges calls)
  case mergeExchange biased old new =>
    split at stopped
    · cases stopped
    · exact absurd stopped (merges calls)
  case mergeRelease new =>
    rw [if_neg (not_lt_of_ge calls)] at stopped
    cases stopped
  case downgradeExchange old =>
    (repeat' split at stopped) <;> cases stopped
    exact .inr rfl
  case weakIncrement =>
    split at stopped <;> cases stopped
    exact .inr rfl
  all_goals (repeat' split at stopped) <;> cases stopped

theorem sound (entrusted : m.Entrusted) : m.EntrySound where
  entry id queued := by
    have waits := entrusted.entry id queued
    have undecided := entrusted.inv.decided.2 fun dead => by simpa [dead.1] using waits.1.1
    have settling := entrusted.inv.settling
    exact ⟨waits, by omega⟩
  once := entrusted.inv.once
  faults _ _ _ := entrusted.faults

end Entrusted

/-- However the calls interleave, an entry in a queue is for the owner of an unmerged object in
    debt, there is one of it at most, and no access stops the process but for want of bits. -/
theorem entry_sound {m : Machine pw Tid} (reached : (queueRace pw Tid).Reachable m) : m.EntrySound := by
  have entrusted : m.Entrusted := by
    refine reached.invariant (P := Entrusted) ?_ ?_
    · intro m start
      refine ⟨start.agrees.inv, start.entry, fun t => ?_⟩
      rw [start.agrees.idle t]
      exact trivial
    · exact fun _ _ _ entrusted taken => entrusted.next taken.1 taken.2
  exact entrusted.sound

theorem entryAgrees_twoBrcs : (twoBrcs (0 : Fin 2)).EntryAgrees where
  agrees := weakAgrees_twoBrcs.agrees
  entry := by rintro _ ⟨⟩

/-- Thread 1 drops its handle and a clone that the owner gave it. -/
theorem entry_sound_of_debt :
    ∃ m : Machine .w64 (Fin 2), m.entry = some .first ∧ m.EntrySound := by
  obtain ⟨m, reached, queued⟩ := Reachable.of_replay
    (.start entryAgrees_twoBrcs : (queueRace .w64 (Fin 2)).Reachable (twoBrcs 0))
    [.start 0 .clone, .advance 0 false, .advance 0 false, .send 0 1, .start 1 .drop,
      .advance 1 false, .advance 1 false, .start 0 .clone, .advance 1 false, .start 1 .drop,
      .advance 1 false, .advance 1 false, .advance 0 false, .advance 1 true, .advance 1 false,
      .advance 1 false, .advance 1 false]
    (fun m => m.entry = some .first) (by decide +kernel)
  exact ⟨m, queued, entry_sound reached⟩

end Machine

end BiasedRc
