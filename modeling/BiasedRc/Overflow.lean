import BiasedRc.Lib.Outcome
import BiasedRc.MachineEffects

/-! # How far the shared count can go

`increment_strong_shared` adds first and compares the count that it found with
the threshold afterwards. A thread that finds the count above the threshold
aborts at its next access, so such threads add at most one each, and a merge adds
at most one biased count. `increment_strong_unless_zero` has no threshold: it
adds up to the maximum itself, and leaves a clone no room.
-/

namespace BiasedRc

open Tally Outcome Transition System

variable {pw : PointerWidth} {Tid : Type} [DecidableEq Tid]

/-- The machine with the two steps of `increment_strong_shared` apart: the word that the
    `fetch_add` of a thread returned, until it is compared. -/
structure Incrementing (pw : PointerWidth) (Tid : Type) where
  machine : Machine pw Tid
  unchecked : Tid → Option (SharedWord pw)
  aborted : Bool

inductive IncrementAct (Tid : Type) where
  | machine (act : Act Tid)
  | fetchAdd (t : Tid)
  | check (t : Tid)
  /-- `core::mem::forget` of a handle. -/
  | forget (t : Tid)
  | forgetWeak (t : Tid)
  deriving DecidableEq

/-- The access is the fused one of `increment_strong_shared`. -/
def Machine.fuses (m : Machine pw Tid) : Act Tid → Bool
  | .advance t _ => m.pc t = .sharedIncrement
  | _ => false

/-- What the thread of `RawBrcHeader::init` leaves behind. -/
def Machine.fresh (shortId : Tid → Option ShortThreadId) (creator : Tid) : Machine pw Tid where
  header := .init (shortId creator)
  weakCount := 1
  shortId := shortId
  pc := fun _ => .idle
  entry := none
  strong := raise (fun _ => 0) creator
  weak := fun _ => 0
  decided := 0
  destroyed := 0
  freed := false
  upgrades := []

namespace Incrementing

def count (s : Incrementing pw Tid) : Int := s.machine.header.shared.sharedCount.value

def fetchAdd (s : Incrementing pw Tid) (t : Tid) : Incrementing pw Tid :=
  { s with
    machine := s.machine.hold s.machine.header.fetchAddShared (raise s.machine.strong t)
    unchecked := Function.update s.unchecked t (some s.machine.header.shared) }

/-- The clone of thread `t` returns. -/
def finish (s : Incrementing pw Tid) (t : Tid) : Incrementing pw Tid :=
  { s with
    machine := s.machine.goto t .idle
    unchecked := Function.update s.unchecked t none }

/-- What leaves room for a merge and for a clone of every thread. -/
def upgradeLimit (pw : PointerWidth) (threads : Nat) : Int :=
  SharedCount.maxValue pw - threads - 2 ^ 20

/-- The `fetch_update` of an upgrade succeeds only on a count within the limit. -/
def UpgradesBelow (limit : Int) (s : Incrementing pw Tid) : IncrementAct Tid → Prop
  | .machine (.advance t false) =>
      match s.machine.pc t with
      | .upgradeExchange old _ => s.machine.header.shared = old → s.count ≤ limit
      | _ => True
  | _ => True

instance (limit : Int) (s : Incrementing pw Tid) (act : IncrementAct Tid) :
    Decidable (s.UpgradesBelow limit act) := by
  unfold UpgradesBelow
  split
  · split <;> infer_instance
  · infer_instance

/-- The step is the exchange of `decrement_shared`, which may go below zero. -/
def Drops (s : Incrementing pw Tid) : IncrementAct Tid → Prop
  | .machine (.advance t _) => ∃ old new, s.machine.pc t = .sharedExchange old new
  | _ => False

variable [Fintype Tid]

def next (s : Incrementing pw Tid) (act : IncrementAct Tid) : Option (Incrementing pw Tid) :=
  if s.aborted then none
  else
    match act with
    | .machine act =>
        if s.machine.fuses act then none
        else (s.machine.next act).map fun machine => { s with machine }
    | .fetchAdd t =>
        if s.machine.pc t = .sharedIncrement ∧ s.unchecked t = none then some (s.fetchAdd t)
        else none
    | .check t =>
        match s.unchecked t with
        | none => none
        | some old =>
            if RawBrcHeader.pastThreshold old then some { s with aborted := true }
            else some (s.finish t)
    | .forget t =>
        if s.machine.pc t = .idle ∧ 1 ≤ s.machine.strong t then
          some { s with machine := { s.machine with strong := lower s.machine.strong t } }
        else none
    | .forgetWeak t =>
        if s.machine.pc t = .idle ∧ 1 ≤ s.machine.weak t then
          some { s with machine := { s.machine with weak := lower s.machine.weak t } }
        else none

/-- A new object. -/
def Start (s : Incrementing pw Tid) : Prop :=
  ∃ shortId creator, s = ⟨.fresh shortId creator, fun _ => none, false⟩

def system (pw : PointerWidth) (Tid : Type) [DecidableEq Tid] [Fintype Tid] :
    System (Incrementing pw Tid) (IncrementAct Tid) :=
  ofNext Start next

end Incrementing

variable [Fintype Tid]

namespace Machine

/-- What an access other than a `fetch_add` does to the shared word. -/
inductive Rewrites (m : Machine pw Tid) (t : Tid) (spurious : Bool) (m' : Machine pw Tid) : Prop where
  | same (shared : m'.header.shared = m.header.shared)
  | upgrade {new} (call : m.pc t = .upgradeExchange m.header.shared new)
      (exchanged : spurious = false) (shared : m'.header.shared = new)
  | merge {biased new} (call : m.pc t = .mergeExchange biased m.header.shared new)
      (shared : m'.header.shared = new)
  | drop {new} (call : m.pc t = .sharedExchange m.header.shared new)
      (shared : m'.header.shared = new)
  | slow (shared : m'.header.shared = { m.header.shared with merged := true })

theorem advance_rewrites {m m' : Machine pw Tid} {t spurious} (unfused : m.pc t ≠ .sharedIncrement)
    (returned : m.advance t spurious = .ok m') : m.Rewrites t spurious m' := by
  unfold advance at returned
  cases pc : m.pc t
  case sharedIncrement => exact absurd pc unfused
  case incrementStore upgrade new =>
    simp only [pc, Except.ok.injEq] at returned
    subst returned
    cases upgrade <;> exact .same (RawBrcHeader.shared_storeBiased ..)
  case upgradeExchange old new =>
    simp only [pc] at returned
    split at returned
    · rename_i exchanged
      obtain ⟨strong, exchanged⟩ := exchanges_iff.mp exchanged
      subst exchanged
      cases returned
      exact .upgrade pc strong (RawBrcHeader.shared_storeShared ..)
    · simp only [tryUpgrade, bind, Except.bind, pure, Except.pure] at returned
      (repeat' split at returned) <;> cases returned <;> exact .same rfl
  case sharedExchange old new =>
    simp only [pc] at returned
    split at returned
    · rename_i exchanged
      obtain ⟨_, exchanged⟩ := exchanges_iff.mp exchanged
      subst exchanged
      (repeat' split at returned) <;> cases returned <;>
        exact .drop pc (RawBrcHeader.shared_storeShared ..)
    · simp only [tryDecrement, bind, Except.bind, pure, Except.pure] at returned
      split at returned <;> cases returned
      exact .same rfl
  case mergeExchange biased old new =>
    simp only [pc] at returned
    split at returned
    · rename_i exchanged
      obtain ⟨_, exchanged⟩ := exchanges_iff.mp exchanged
      subst exchanged
      cases returned
      exact .merge pc (RawBrcHeader.shared_storeShared ..)
    · simp only [tryMerge, bind, Except.bind, pure, Except.pure] at returned
      split at returned <;> cases returned
      exact .same rfl
  case slowMerge =>
    simp only [pc, Except.ok.injEq] at returned
    exact returned ▸ .slow (RawBrcHeader.shared_fetchOrMerged _)
  -- loads, stores to the biased word, and accesses to the weak count
  all_goals
    simp only [pc, tryUpgrade, tryDecrement, tryMerge, bind, Except.bind, pure, Except.pure]
      at returned
    (repeat' split at returned) <;> cases returned <;> exact .same rfl

/-- A call goes on to an exchange only with a word that it has computed for it. -/
theorem advance_coherent {m m' : Machine pw Tid} {t spurious}
    (returned : m.advance t spurious = .ok m') : (m'.pc t).Coherent := by
  unfold advance at returned
  cases pc : m.pc t <;>
    simp only [pc, tryUpgrade, tryDecrement, tryMerge, bind, Except.bind, pure, Except.pure]
      at returned <;>
    (repeat' split at returned) <;>
    cases returned <;>
    simp [Pc.Coherent, goto, hold, answer, *]

/-- Every call keeps to words that it has computed. -/
theorem next_coherent {m m' : Machine pw Tid} {act : Act Tid} (coherent : ∀ t, (m.pc t).Coherent)
    (taken : m.next act = some m') : ∀ t, (m'.pc t).Coherent := by
  intro t'
  cases step_of_next taken with
  | @start t op _ _ =>
      by_cases same : t' = t
      · subst same
        cases op <;> simp [Op.entryPoint, Pc.Coherent]
      · rw [pc_goto_of_ne same]
        exact coherent t'
  | @advance t spurious _ _ returned =>
      by_cases same : t' = t
      · exact same ▸ advance_coherent returned
      · rw [(advance_frame returned).pc t' same]
        exact coherent t'
  | @merge t _ _ _ _ =>
      by_cases same : t' = t
      · subst same
        simp [Pc.Coherent]
      · rw [pc_goto_of_ne same]
        exact coherent t'
  | die | send | sendWeak => exact coherent t'

/-- The steps of the machine by what they do to the shared word. -/
theorem next_rewrites {m m' : Machine pw Tid} {act : Act Tid} (unfused : m.fuses act = false)
    (taken : m.next act = some m') :
    m'.header.shared = m.header.shared ∨
      ∃ t spurious, act = .advance t spurious ∧ m.Rewrites t spurious m' := by
  cases step_of_next taken with
  | advance _ returned =>
      exact .inr ⟨_, _, rfl, advance_rewrites (by simpa [fuses] using unfused) returned⟩
  | start | merge | die | send | sendWeak => exact .inl rfl

end Machine

namespace Incrementing

/-- The word was past the threshold, so its thread aborts at its next access. -/
def doomed : Option (SharedWord pw) → Nat
  | some old => (RawBrcHeader.pastThreshold old).toNat
  | none => 0

theorem doomed_le_one (old : Option (SharedWord pw)) : doomed old ≤ 1 := by
  cases old with
  | none => exact Nat.zero_le 1
  | some old => exact Bool.toNat_le _

/-- The most that a merge has added, `BiasedCount::MAX`. -/
def mergeAllowance (w : SharedWord pw) : Int := if w.merged then 2 ^ 20 - 1 else 0

theorem mergeAllowance_nonneg (w : SharedWord pw) : 0 ≤ mergeAllowance w := by
  unfold mergeAllowance
  split <;> omega

theorem mergeAllowance_le (w : SharedWord pw) : mergeAllowance w ≤ 2 ^ 20 - 1 := by
  unfold mergeAllowance
  split <;> omega

/-- The count exceeds the limit by one addition of each doomed thread and by one merge. -/
structure Bounded (limit : Int) (s : Incrementing pw Tid) : Prop where
  coherent : ∀ t, (s.machine.pc t).Coherent
  count : s.count ≤ limit + 1 + tally doomed s.unchecked + mergeAllowance s.machine.header.shared

/-- The step leaves a bounded count, and no nonnegative one became negative but by a drop. -/
structure Keeps (limit : Int) (s : Incrementing pw Tid) (act : IncrementAct Tid)
    (s' : Incrementing pw Tid) : Prop where
  bounded : s'.Bounded limit
  nonneg : ¬ s.Drops act → 0 ≤ s.count → 0 ≤ s'.count

variable {limit : Int} {s : Incrementing pw Tid} {t : Tid}

omit [DecidableEq Tid] in
theorem Bounded.rewrites (bounded : s.Bounded limit) {m : Machine pw Tid} {act : Act Tid}
    (below : s.UpgradesBelow limit (.machine act)) (coherent : ∀ t, (m.pc t).Coherent)
    (rewrites : m.header.shared = s.machine.header.shared ∨
      ∃ t spurious, act = .advance t spurious ∧ s.machine.Rewrites t spurious m) :
    s.Keeps limit (.machine act) { s with machine := m } := by
  have count := bounded.count
  have room := mergeAllowance_nonneg s.machine.header.shared
  unfold Incrementing.count at count
  rcases rewrites with same | ⟨t, spurious, rfl, rewrites⟩
  · refine ⟨⟨coherent, ?_⟩, fun _ => ?_⟩ <;> simp only [Incrementing.count, same]
    · exact count
    · exact id
  · cases rewrites with
    | same same =>
        refine ⟨⟨coherent, ?_⟩, fun _ => ?_⟩ <;> simp only [Incrementing.count, same]
        · exact count
        · exact id
    | slow same =>
        refine ⟨⟨coherent, ?_⟩, fun _ => ?_⟩ <;> simp only [Incrementing.count, same]
        · have more := mergeAllowance_le s.machine.header.shared
          simp only [mergeAllowance, if_true]
          omega
        · exact id
    | @upgrade new call exchanged shared =>
        have computed : s.machine.header.shared.upgraded = .ok (some new) := by
          simpa only [call, Pc.Coherent] using bounded.coherent t
        obtain ⟨_, value, _, _⟩ := SharedWord.upgraded_eq_some computed
        have small : s.machine.header.shared.sharedCount.value ≤ limit := by
          subst exchanged
          simpa [UpgradesBelow, call, Incrementing.count] using below
        refine ⟨⟨coherent, ?_⟩, fun _ => ?_⟩ <;> simp only [Incrementing.count, shared, value]
        · have allowance := mergeAllowance_nonneg new
          omega
        · omega
    | @merge biased new call shared =>
        have computed : s.machine.header.shared.mergedWith biased = .ok new := by
          simpa only [call, Pc.Coherent] using bounded.coherent t
        obtain ⟨unmerged, value, merged, _⟩ := SharedWord.mergedWith_eq_ok computed
        refine ⟨⟨coherent, ?_⟩, fun _ => ?_⟩ <;> simp only [Incrementing.count, shared, value]
        · have most := biased.isLt
          simp only [mergeAllowance, merged, unmerged, if_true, Bool.false_eq_true, if_false]
            at count ⊢
          omega
        · omega
    | @drop new call shared =>
        have computed : s.machine.header.shared.decremented = .ok new := by
          simpa only [call, Pc.Coherent] using bounded.coherent t
        obtain ⟨value, merged, _⟩ := SharedWord.decremented_eq_ok computed
        refine ⟨⟨coherent, ?_⟩, fun notDrop => absurd ⟨_, _, call⟩ notDrop⟩
        simp only [Incrementing.count, shared, value, mergeAllowance, merged] at count ⊢
        omega

/-- The `fetch_add` of one more thread stays below the maximum. -/
theorem Bounded.fetchAdd (bounded : s.Bounded limit)
    (threshold : SharedWord.overflowThreshold pw ≤ limit)
    (room : limit + Fintype.card Tid + 2 ^ 20 ≤ SharedCount.maxValue pw)
    (fresh : s.unchecked t = none) : s.Keeps limit (.fetchAdd t) (s.fetchAdd t) := by
  have count := bounded.count
  have allowance := mergeAllowance_le s.machine.header.shared
  have others : tally doomed s.unchecked < Fintype.card Tid :=
    tally_lt_card doomed_le_one (i := t) (by rw [fresh]; rfl)
  have added := tally_update doomed s.unchecked t (some s.machine.header.shared)
  rw [fresh, show doomed (none : Option (SharedWord pw)) = 0 from rfl, Nat.add_zero] at added
  have coherent : ∀ t', ((s.fetchAdd t).machine.pc t').Coherent := bounded.coherent
  by_cases carry : s.machine.header.shared.sharedCount.value = -1
  · have zero : (s.fetchAdd t).count = 0 := by
      simp only [Incrementing.count, Incrementing.fetchAdd, Machine.hold,
        RawBrcHeader.shared_fetchAddShared_carry carry]
      cases pw <;> decide
    refine ⟨⟨coherent, ?_⟩, fun _ _ => zero.ge⟩
    have positive : 0 ≤ SharedWord.overflowThreshold pw := by cases pw <;> decide
    have more := mergeAllowance_nonneg (s.fetchAdd t).machine.header.shared
    omega
  · have shared := RawBrcHeader.shared_fetchAddShared carry
    have value : (s.fetchAdd t).count = s.count + 1 := by
      simp only [Incrementing.count, Incrementing.fetchAdd, Machine.hold, shared]
      exact SharedCount.value_wrappingSucc (by unfold Incrementing.count at count; omega)
    refine ⟨⟨coherent, ?_⟩, fun _ nonneg => by omega⟩
    have same : mergeAllowance (s.fetchAdd t).machine.header.shared =
        mergeAllowance s.machine.header.shared := by
      simp only [Incrementing.fetchAdd, Machine.hold, shared, mergeAllowance]
    have waiting : tally doomed (s.fetchAdd t).unchecked =
        tally doomed s.unchecked + doomed (some s.machine.header.shared) := added
    rw [same, value, waiting]
    cases past : RawBrcHeader.pastThreshold s.machine.header.shared with
    | true =>
        simp only [doomed, past, Bool.toNat_true]
        omega
    | false =>
        have below : s.count ≤ SharedWord.overflowThreshold pw := by
          simpa [RawBrcHeader.pastThreshold, Incrementing.count] using past
        have more := mergeAllowance_nonneg s.machine.header.shared
        omega

/-- Every step of a run whose upgrades keep to the limit. -/
theorem Bounded.next (bounded : s.Bounded limit)
    (threshold : SharedWord.overflowThreshold pw ≤ limit)
    (room : limit + Fintype.card Tid + 2 ^ 20 ≤ SharedCount.maxValue pw)
    {act : IncrementAct Tid} {s' : Incrementing pw Tid} (below : s.UpgradesBelow limit act)
    (taken : s.next act = some s') : s.Keeps limit act s' := by
  simp only [Incrementing.next, Option.ite_none_left_eq_some] at taken
  obtain ⟨_, taken⟩ := taken
  cases act with
  | machine act =>
      simp only [Option.ite_none_left_eq_some, Option.map_eq_some_iff, Bool.not_eq_true] at taken
      obtain ⟨unfused, m, stepped, rfl⟩ := taken
      exact bounded.rewrites below (Machine.next_coherent bounded.coherent stepped)
        (Machine.next_rewrites unfused stepped)
  | fetchAdd t =>
      simp only [Option.ite_none_right_eq_some, Option.some.injEq] at taken
      obtain ⟨⟨_, fresh⟩, rfl⟩ := taken
      exact bounded.fetchAdd threshold room fresh
  | check t =>
      simp only at taken
      cases waiting : s.unchecked t with
      | none => simp [waiting] at taken
      | some old =>
          simp only [waiting] at taken
          split at taken
          · cases taken
            exact ⟨⟨bounded.coherent, bounded.count⟩, fun _ => id⟩
          · rename_i small
            cases taken
            have spared := tally_update doomed s.unchecked t none
            rw [waiting, show doomed (some old) = 0 by simp [doomed, small],
              show doomed (none : Option (SharedWord pw)) = 0 from rfl] at spared
            refine ⟨⟨?_, ?_⟩, fun _ => id⟩
            · intro t'
              by_cases same : t' = t
              · subst same
                simp [finish, Pc.Coherent]
              · simpa only [finish, Machine.pc_goto_of_ne same] using bounded.coherent t'
            · have count := bounded.count
              simp only [Incrementing.count, finish, Machine.header_goto] at count ⊢
              omega
  | forget t | forgetWeak t =>
      simp only [Option.ite_none_right_eq_some, Option.some.injEq] at taken
      obtain ⟨_, rfl⟩ := taken
      exact ⟨⟨bounded.coherent, bounded.count⟩, fun _ => id⟩

theorem overflowThreshold_nonneg : 0 ≤ SharedWord.overflowThreshold pw := by cases pw <;> decide

/-- The number of threads leaves the threshold within the limit. -/
theorem overflowThreshold_le_upgradeLimit {threads : Nat} (few : threads < 2 ^ (pw.sharedBits - 3)) :
    SharedWord.overflowThreshold pw ≤ upgradeLimit pw threads := by
  simp only [SharedWord.overflowThreshold, upgradeLimit, SharedCount.maxValue]
  cases pw <;> simp only [PointerWidth.sharedBits] at few ⊢ <;> omega

theorem Start.bounded (started : s.Start) (positive : 0 ≤ limit) : s.Bounded limit := by
  obtain ⟨shortId, creator, rfl⟩ := started
  refine ⟨fun _ => trivial, ?_⟩
  simp only [Incrementing.count, Machine.fresh]
  cases shortId creator with
  | none =>
      have allowance := mergeAllowance_nonneg (⟨.ofInt 1, true, false⟩ : SharedWord pw)
      simp only [RawBrcHeader.shared_init_none, SharedCount.value_one]
      omega
  | some id =>
      have allowance := mergeAllowance_nonneg (⟨.ofInt 0, false, false⟩ : SharedWord pw)
      simp only [RawBrcHeader.shared_init_some, SharedCount.value_zero]
      omega

/-- One thread between two upgrades of an unowned object that it has leaked `n` handles to. -/
structure Climbed (s : Incrementing .w64 (Fin 1)) (n : Int) : Prop where
  running : s.aborted = false
  unchecked : s.unchecked 0 = none
  idle : s.machine.pc 0 = .idle
  foreign : s.machine.shortId 0 = none
  merged : s.machine.header.shared.merged = true
  count : s.count = n
  strong : 1 ≤ s.machine.strong 0
  weak : 1 ≤ s.machine.weak 0

theorem attemptIncrement_foreign (w : BiasedWord) : w.attemptIncrement none = none := by
  unfold BiasedWord.attemptIncrement
  split <;> rfl

theorem next_advance {s : Incrementing pw Tid} {m : Machine pw Tid} {spurious : Bool}
    (running : s.aborted = false) (busy : s.machine.pc t ≠ .idle)
    (unfused : s.machine.pc t ≠ .sharedIncrement) (returned : s.machine.advance t spurious = .ok m) :
    s.next (.machine (.advance t spurious)) = some { s with machine := m } := by
  simp [Incrementing.next, running, Machine.fuses, unfused, Machine.next, busy, returned,
    Except.toOption]

/-- An upgrade whose handle is leaked. -/
theorem Climbed.upgrade {s : Incrementing .w64 (Fin 1)} {n : Int} (climbed : s.Climbed n)
    (reached : ((system .w64 (Fin 1)).restrict (UpgradesBelow limit)).Reachable s) (positive : 1 ≤ n)
    (below : n < SharedCount.maxValue .w64) (within : n ≤ limit) :
    ∃ s', ((system .w64 (Fin 1)).restrict (UpgradesBelow limit)).Reachable s' ∧ s'.Climbed (n + 1) := by
  let old := s.machine.header.shared
  have count : old.sharedCount.value = n := climbed.count
  let new : SharedWord .w64 := { old with sharedCount := old.sharedCount.wrappingSucc }
  have upgraded : old.upgraded = .ok (some new) := by
    have alive : old.isDead = false := by
      have : old.sharedCount.value ≠ 0 := by omega
      simp [SharedWord.isDead, this]
    simp only [SharedWord.upgraded, alive, Bool.false_eq_true, if_false,
      RawBrcHeader.wrappingSucc_of_checkedAdd (c := old.sharedCount) (by omega), new]
  let s₁ : Incrementing .w64 (Fin 1) := { s with machine := s.machine.goto 0 (.incrementLoad true) }
  have begins : s.next (.machine (.start 0 .upgrade)) = some s₁ := by
    simp [Incrementing.next, climbed.running, Machine.fuses, Machine.next, climbed.idle,
      Machine.canStart, climbed.weak, Op.entryPoint, s₁]
  let s₂ : Incrementing .w64 (Fin 1) := { s with machine := s₁.machine.goto 0 .upgradeLoad }
  have loads : s₁.next (.machine (.advance 0 false)) = some s₂ := by
    refine next_advance climbed.running (by simp [s₁]) (by simp [s₁]) ?_
    simp [Machine.advance, s₁, climbed.foreign, attemptIncrement_foreign]
  let s₃ : Incrementing .w64 (Fin 1) :=
    { s with machine := s₂.machine.goto 0 (.upgradeExchange old new) }
  have computes : s₂.next (.machine (.advance 0 false)) = some s₃ := by
    refine next_advance climbed.running (by simp [s₂]) (by simp [s₂]) ?_
    have loaded : s₂.machine.header.shared.upgraded = .ok (some new) := upgraded
    simp only [Machine.advance, s₂, Machine.pc_goto_self, Machine.tryUpgrade] at loaded ⊢
    rw [loaded]
    rfl
  let s₄ : Incrementing .w64 (Fin 1) :=
    { s with machine := (s₃.machine.hold (s₃.machine.header.storeShared new)
      (raise s₃.machine.strong 0)).answer 0 true }
  have exchanges : s₃.next (.machine (.advance 0 false)) = some s₄ := by
    refine next_advance climbed.running (by simp [s₃]) (by simp [s₃]) ?_
    simp [Machine.advance, s₃, s₂, s₁, old]
  let s₅ : Incrementing .w64 (Fin 1) :=
    { s with machine := { s₄.machine with strong := lower s₄.machine.strong 0 } }
  have leaks : s₄.next (.forget 0) = some s₅ := by
    simp [Incrementing.next, climbed.running, Machine.answer, Machine.hold, s₄, s₅]
  have allowed : s₃.UpgradesBelow limit (.machine (.advance 0 false)) := by
    simp only [UpgradesBelow, s₃, Machine.pc_goto_self]
    exact fun _ => count.le.trans within
  have started : s.UpgradesBelow limit (.machine (.start 0 .upgrade)) := trivial
  have reached₁ := reached.step ⟨started, begins⟩
  have reached₂ := reached₁.step ⟨by simp [UpgradesBelow, s₁], loads⟩
  have reached₃ := reached₂.step ⟨by simp [UpgradesBelow, s₂], computes⟩
  have reached₄ := reached₃.step ⟨allowed, exchanges⟩
  have forgotten : s₄.UpgradesBelow limit (.forget 0) := trivial
  refine ⟨s₅, reached₄.step ⟨forgotten, leaks⟩, ?_⟩
  have word : s₅.machine.header.shared = new := RawBrcHeader.shared_storeShared ..
  exact {
    running := climbed.running
    unchecked := climbed.unchecked
    idle := by simp [s₅, s₄, Machine.answer]
    foreign := climbed.foreign
    merged := by rw [word]; exact climbed.merged
    count := by
      rw [Incrementing.count, word]
      exact (SharedCount.value_wrappingSucc (c := old.sharedCount) (by omega)).trans (by omega)
    strong := by
      simpa [s₅, s₄, s₃, s₂, s₁, Machine.answer, Machine.hold] using climbed.strong
    weak := climbed.weak }

omit [DecidableEq Tid] [Fintype Tid] in
theorem UpgradesBelow.mono {s : Incrementing pw Tid} {act : IncrementAct Tid} {limit' : Int}
    (holds : s.UpgradesBelow limit act) (le : limit ≤ limit') : s.UpgradesBelow limit' act := by
  revert holds
  unfold UpgradesBelow
  split
  · split
    · exact fun holds same => (holds same).trans le
    · exact id
  · exact id

/-- Leaking handle after handle lifts the count to any value above the limit by one at most. -/
theorem exists_climbed (k : Nat) (fits : (k : Int) + 1 ≤ SharedCount.maxValue .w64)
    (within : (k : Int) ≤ limit) :
    ∃ s, ((system .w64 (Fin 1)).restrict (UpgradesBelow limit)).Reachable s ∧ s.Climbed (k + 1) := by
  induction k with
  | zero =>
      have start : ((system .w64 (Fin 1)).restrict (UpgradesBelow 0)).Reachable
          ⟨.fresh (fun _ => none) 0, fun _ => none, false⟩ := .start ⟨_, _, rfl⟩
      obtain ⟨s, ⟨s₀, labels, started, run⟩, running, unchecked, idle, foreign, merged, count, strong,
        weak⟩ := start.of_replay
          [.machine (.start 0 .downgrade), .machine (.advance 0 false), .machine (.advance 0 false)]
          (fun s => s.aborted = false ∧ s.unchecked 0 = none ∧ s.machine.pc 0 = .idle ∧
            s.machine.shortId 0 = none ∧ s.machine.header.shared.merged = true ∧ s.count = 1 ∧
            1 ≤ s.machine.strong 0 ∧ 1 ≤ s.machine.weak 0) (by decide +kernel)
      have reached := run.restrict_mono fun _ _ holds => UpgradesBelow.mono holds within
      exact ⟨s, ⟨s₀, labels, started, reached⟩, running, unchecked, idle, foreign, merged,
        by simpa using count, strong, weak⟩
  | succ k ih =>
      push_cast at fits within
      obtain ⟨s, reached, climbed⟩ := ih (by omega) (by omega)
      exact climbed.upgrade reached (by omega) (by omega) within

/-- A clone that comes next, up to its addition. -/
theorem Climbed.clone {s : Incrementing .w64 (Fin 1)} {n : Int} (climbed : s.Climbed n)
    (reached : ((system .w64 (Fin 1)).restrict (UpgradesBelow limit)).Reachable s) :
    ∃ s', ((system .w64 (Fin 1)).restrict (UpgradesBelow limit)).Reachable s' ∧ s'.count = n ∧
      s'.next (.fetchAdd 0) = some (s'.fetchAdd 0) := by
  let s₁ : Incrementing .w64 (Fin 1) := { s with machine := s.machine.goto 0 (.incrementLoad false) }
  have begins : s.next (.machine (.start 0 .clone)) = some s₁ := by
    simp [Incrementing.next, climbed.running, Machine.fuses, Machine.next, climbed.idle,
      Machine.canStart, climbed.strong, Op.entryPoint, s₁]
  let s₂ : Incrementing .w64 (Fin 1) := { s with machine := s₁.machine.goto 0 .sharedIncrement }
  have loads : s₁.next (.machine (.advance 0 false)) = some s₂ := by
    refine next_advance climbed.running (by simp [s₁]) (by simp [s₁]) ?_
    simp [Machine.advance, s₁, climbed.foreign, attemptIncrement_foreign]
  have started : s.UpgradesBelow limit (.machine (.start 0 .clone)) := trivial
  have reached₁ := reached.step ⟨started, begins⟩
  refine ⟨s₂, reached₁.step ⟨by simp [UpgradesBelow, s₁], loads⟩, climbed.count, ?_⟩
  simp [Incrementing.next, climbed.running, climbed.unchecked, s₂]

/-- While upgrades keep to the limit, no addition takes the count past its maximum. -/
theorem count_never_wraps (few : Fintype.card Tid < 2 ^ (pw.sharedBits - 3))
    {s s' : Incrementing pw Tid} {act : IncrementAct Tid}
    (reached : ((system pw Tid).restrict
      (UpgradesBelow (upgradeLimit pw (Fintype.card Tid)))).Reachable s)
    (taken : ((system pw Tid).restrict
      (UpgradesBelow (upgradeLimit pw (Fintype.card Tid)))).step s act s')
    (notDrop : ¬ s.Drops act) (nonneg : 0 ≤ s.count) : 0 ≤ s'.count := by
  have threshold := overflowThreshold_le_upgradeLimit few
  have room : upgradeLimit pw (Fintype.card Tid) + Fintype.card Tid + 2 ^ 20 ≤
      SharedCount.maxValue pw := by simp only [upgradeLimit]; omega
  have bounded : s.Bounded (upgradeLimit pw (Fintype.card Tid)) := by
    refine reached.invariant (P := Bounded (upgradeLimit pw (Fintype.card Tid))) ?_ ?_
    · exact fun _ started => started.bounded (overflowThreshold_nonneg.trans threshold)
    · exact fun _ _ _ before step => (before.next threshold room step.1 step.2).bounded
  exact (bounded.next threshold room taken.1 taken.2).nonneg notDrop nonneg

/-- A clone after upgrades up to the limit. -/
theorem count_never_wraps_at_clone : ∃ s s' : Incrementing .w64 (Fin 1),
    s.next (.fetchAdd 0) = some s' ∧ s.count = upgradeLimit .w64 1 + 1 ∧ 0 ≤ s'.count := by
  have limit : ((2 ^ 61 - 2 - 2 ^ 20 : Nat) : Int) = upgradeLimit .w64 (Fintype.card (Fin 1)) := by
    decide
  obtain ⟨s, climbing, climbed⟩ := exists_climbed (2 ^ 61 - 2 - 2 ^ 20) (by decide) limit.le
  obtain ⟨s', reached, count, adds⟩ := climbed.clone climbing
  rw [limit] at count
  have few : Fintype.card (Fin 1) < 2 ^ (PointerWidth.w64.sharedBits - 3) := by decide
  have positive : 0 ≤ s'.count := by rw [count]; decide
  have below : s'.UpgradesBelow (upgradeLimit .w64 (Fintype.card (Fin 1))) (.fetchAdd 0) := trivial
  exact ⟨s', s'.fetchAdd 0, adds, count, count_never_wraps few reached ⟨below, adds⟩ id positive⟩

theorem wrappingSucc_at_max {c : SharedCount .w64} (full : c.value = SharedCount.maxValue .w64) :
    c.wrappingSucc.value < 0 := by
  have largest : c = .ofInt (SharedCount.maxValue .w64) :=
    SharedCount.ext_value (full.trans (by decide))
  subst largest
  decide

/-- Upgrades take the count to its maximum, and the next clone wraps it. -/
theorem count_wraps_after_upgrades :
    ¬ ∀ (s s' : Incrementing .w64 (Fin 1)) (act : IncrementAct (Fin 1)),
      (system .w64 (Fin 1)).Reachable s → (system .w64 (Fin 1)).step s act s' → ¬ s.Drops act →
        0 ≤ s.count → 0 ≤ s'.count := by
  intro never
  have top : ((2 ^ 61 - 2 : Nat) : Int) + 1 = SharedCount.maxValue .w64 := by decide
  obtain ⟨s, climbing, climbed⟩ := exists_climbed (2 ^ 61 - 2) top.le le_rfl
  obtain ⟨s', reached, count, adds⟩ := climbed.clone climbing
  have full : s'.machine.header.shared.sharedCount.value = SharedCount.maxValue .w64 := count.trans top
  have positive : 0 ≤ s'.count := by rw [Incrementing.count, full]; decide
  have noCarry : s'.machine.header.shared.sharedCount.value ≠ -1 := by rw [full]; decide
  have word : (s'.fetchAdd 0).machine.header.shared.sharedCount =
      s'.machine.header.shared.sharedCount.wrappingSucc :=
    congrArg SharedWord.sharedCount (RawBrcHeader.shared_fetchAddShared (h := s'.machine.header) noCarry)
  have nonneg := never s' (s'.fetchAdd 0) (.fetchAdd 0) reached.of_restrict adds id positive
  have negative := wrappingSucc_at_max full
  rw [Incrementing.count, word] at nonneg
  omega

end Incrementing

end BiasedRc
