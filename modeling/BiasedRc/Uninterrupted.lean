import BiasedRc.WeakLock
import BiasedRc.World

/-! # Calls that nobody interrupts

The functions on objects run a call to its end, and the machine takes it access by
access. When nobody comes between the accesses of a call, they end with the object,
the queue entry and the answer that the function gives, or they stop with its fault.
So every history of whole calls is one of the interleavings, and what holds in all
of these holds between whole calls too.
-/

namespace BiasedRc

open Tally Transition.System

variable {pw : PointerWidth} {Tid : Type} [DecidableEq Tid] [Fintype Tid]

/-- An object that no call is inside of, with the entry for it in a queue and what the
    upgrades have returned so far. -/
structure Pause (pw : PointerWidth) (Tid : Type) where
  object : Object pw Tid
  shortId : Tid → Option ShortThreadId
  entry : Option ShortThreadId
  upgrades : List Answer

/-- What happens from one pause to the next. -/
inductive Turn (Tid : Type) where
  | call (t : Tid) (op : Op)
  | merge (t : Tid)
  | die (t : Tid)
  | send (source target : Tid)
  | sendWeak (source target : Tid)
  deriving DecidableEq

/-- The thread whose turn it is. -/
def Turn.thread : Turn Tid → Tid
  | .call t _ | .merge t | .die t | .send t _ | .sendWeak t _ => t

namespace Pause

/-- The machine when no call runs. -/
def machine (s : Pause pw Tid) : Machine pw Tid where
  header := s.object.header
  weakCount := s.object.weakCount
  shortId := s.shortId
  pc _ := .idle
  entry := s.entry
  strong := s.object.strong
  weak := s.object.weak
  decided := s.object.destroyed
  destroyed := s.object.destroyed
  freed := s.object.freed
  upgrades := s.upgrades

def setObject (s : Pause pw Tid) (ob : Object pw Tid) : Pause pw Tid := { s with object := ob }

/-- What `decrement_shared` does last; the winner queues the object. -/
def release (s : Pause pw Tid) (ob : Object pw Tid) (won : Bool) : Except Fault (Pause pw Tid) :=
  if won then
    match ob.header.biased.ownerId with
    | none => .error .negativeRefcntNoOwner
    | some owner => .ok { s.setObject ob with entry := some owner }
  else .ok (s.setObject ob)

/-- `Brc::drop`. -/
def drop (s : Pause pw Tid) (t : Tid) : Except Fault (Pause pw Tid) := do
  let (ob, won) ← s.object.decrementStrong t (s.shortId t)
  s.release ob won

/-- `Weak::upgrade`. -/
def upgrade (s : Pause pw Tid) (t : Tid) : Except Fault (Pause pw Tid) := do
  let (ob, isSome) ← s.object.incrementStrongUnlessZero t (s.shortId t)
  return { s.setObject ob with
    upgrades := s.upgrades ++ [⟨isSome, ob.destroyed, total ob.strong⟩] }

def call (s : Pause pw Tid) (t : Tid) : Op → Except Fault (Pause pw Tid)
  | .clone => s.setObject <$> s.object.incrementStrong t (s.shortId t)
  | .cloneShared => s.setObject <$> s.object.incrementStrongShared t
  | .upgrade => s.upgrade t
  | .drop => s.drop t
  | .downgrade => s.setObject <$> s.object.downgrade t
  | .cloneWeak => s.setObject <$> s.object.cloneWeak t
  | .dropWeak => .ok (s.setObject (s.object.releaseWeak t))
  | .isUnique => .ok s

def take (s : Pause pw Tid) : Turn Tid → Except Fault (Pause pw Tid)
  | .call t op => s.call t op
  | .merge _ =>
      match s.entry with
      | none => .ok s
      | some id => (fun ob => { s.setObject ob with entry := none }) <$> s.object.explicitMerge id
  | .die t => .ok { s with shortId := Function.update s.shortId t none }
  | .send source target =>
      .ok (s.setObject { s.object with strong := raise (lower s.object.strong source) target })
  | .sendWeak source target =>
      .ok (s.setObject { s.object with weak := raise (lower s.object.weak source) target })

def enabled (s : Pause pw Tid) : Turn Tid → Prop
  | .call t op => s.machine.canStart t op
  | .merge t => ∃ id ∈ s.entry, s.machine.MayMerge t id
  | .die _ => True
  | .send source _ => 1 ≤ s.object.strong source
  | .sendWeak source _ => 1 ≤ s.object.weak source

/-- No clone adds to a shared count of -1. -/
def Safe (s : Pause pw Tid) : Turn Tid → Prop
  | .call t .clone => s.object.header.biased.attemptIncrement (s.shortId t) = none →
      s.object.header.shared.sharedCount.value ≠ -1
  | .call _ .cloneShared => s.object.header.shared.sharedCount.value ≠ -1
  | _ => True

instance (s : Pause pw Tid) (turn : Turn Tid) : Decidable (s.enabled turn) :=
  match turn with
  | .call t op => inferInstanceAs (Decidable (s.machine.canStart t op))
  | .merge t => inferInstanceAs (Decidable (∃ id ∈ s.entry, s.machine.MayMerge t id))
  | .die _ => inferInstanceAs (Decidable True)
  | .send source _ => inferInstanceAs (Decidable (1 ≤ s.object.strong source))
  | .sendWeak source _ => inferInstanceAs (Decidable (1 ≤ s.object.weak source))

instance (s : Pause pw Tid) (turn : Turn Tid) : Decidable (s.Safe turn) :=
  match turn with
  | .call _ .clone => inferInstanceAs (Decidable (_ = none → _ ≠ (-1 : Int)))
  | .call _ .cloneShared => inferInstanceAs (Decidable (_ ≠ (-1 : Int)))
  | .call _ .upgrade | .call _ .drop | .call _ .downgrade | .call _ .cloneWeak | .call _ .dropWeak
  | .call _ .isUnique | .merge _ | .die _ | .send _ _ | .sendWeak _ _ =>
      inferInstanceAs (Decidable True)

def next (s : Pause pw Tid) (turn : Turn Tid) : Option (Pause pw Tid) :=
  if s.enabled turn then (s.take turn).toOption else none

end Pause

/-- Whole calls on one object, one after the other. -/
def wholeCalls (pw : PointerWidth) (Tid : Type) [DecidableEq Tid] [Fintype Tid] :
    Transition.System (Pause pw Tid) (Turn Tid) :=
  ofNext (fun s => s.machine.WeakAgrees) Pause.next

/-- An access other than the addition of a clone. -/
def Pc.addsNothing : Pc pw → Bool
  | .idle | .sharedIncrement => false
  | _ => true

namespace Machine

/-- The accesses of thread `t`, one after the other, until its call returns or stops. -/
inductive Alone (t : Tid) : Machine pw Tid → Except Fault (Machine pw Tid) → Prop where
  | returns {m : Machine pw Tid} : Alone t (m.goto t .idle) (.ok (m.goto t .idle))
  | stops {m : Machine pw Tid} {fault} (stopped : m.advance t false = .error fault) :
      Alone t m (.error fault)
  | access {m mid : Machine pw Tid} {result} (busy : m.pc t ≠ .idle)
      (calm : m.NoCarry (.advance t false)) (returned : m.advance t false = .ok mid)
      (rest : Alone t mid result) : Alone t m result

variable {m mid : Machine pw Tid} {t : Tid} {result : Except Fault (Machine pw Tid)}

omit [Fintype Tid] in
theorem goto_goto {p p' : Pc pw} : (m.goto t p).goto t p' = m.goto t p' := by
  simp only [goto, Function.update_idem]

theorem Alone.plain {p : Pc pw} (plain : p.addsNothing = true)
    (returned : (m.goto t p).advance t false = .ok mid) (rest : Alone t mid result) :
    Alone t (m.goto t p) result := by
  refine .access ?_ ?_ returned rest
  · rw [pc_goto_self]
    rintro rfl
    cases plain
  · intro clones
    rw [pc_goto_self] at clones
    rw [clones] at plain
    cases plain

/-- What nobody interrupts is an interleaving, whose end is reached or is one access away. -/
theorem Alone.run (alone : Alone t m result) :
    (∀ m', result = .ok m' → ∃ order, Run (races pw Tid) m order m') ∧
      ∀ fault, result = .error fault →
        ∃ order m', Run (races pw Tid) m order m' ∧ m'.advance t false = .error fault := by
  induction alone with
  | returns =>
      constructor
      · rintro m' ⟨⟩
        exact ⟨[], .nil⟩
      · rintro fault ⟨⟩
  | stops stopped =>
      constructor
      · rintro m' ⟨⟩
      · rintro fault ⟨⟩
        exact ⟨[], _, .nil, stopped⟩
  | @access m mid result busy calm returned _ ih =>
      have taken : (races pw Tid).step m (.advance t false) mid :=
        ⟨calm, show m.next (.advance t false) = some mid by
          rw [next, if_neg busy, returned, Except.toOption]⟩
      constructor
      · intro m' ends
        obtain ⟨order, run⟩ := ih.1 m' ends
        exact ⟨.advance t false :: order, .cons taken run⟩
      · intro fault ends
        obtain ⟨order, m', run, stopped⟩ := ih.2 fault ends
        exact ⟨.advance t false :: order, m', .cons taken run, stopped⟩

end Machine

namespace Pause

open Machine

variable {s : Pause pw Tid} {t : Tid} {p : Pc pw}

/-- The call of thread `t` that begins with this access ends so. -/
def Plays (s : Pause pw Tid) (t : Tid) (p : Pc pw) (result : Except Fault (Pause pw Tid)) : Prop :=
  Alone t (s.machine.goto t p) (machine <$> result)

/-- Back at rest. -/
theorem alone_idle : Alone t (s.machine.goto t .idle) (machine <$> Except.ok s) := by
  have same : s.machine.goto t .idle = s.machine := by
    simp only [goto, machine, Function.update_eq_self]
  have returned : Alone t (s.machine.goto t .idle) (.ok (s.machine.goto t .idle)) := .returns
  rw [same] at returned ⊢
  exact returned

theorem plays_cloneShared (calm : s.object.header.shared.sharedCount.value ≠ -1) :
    s.Plays t .sharedIncrement (s.setObject <$> s.object.incrementStrongShared t) := by
  rw [Plays, Object.incrementStrongShared]
  by_cases past : RawBrcHeader.pastThreshold s.object.header.shared
  · rw [if_pos past]
    exact .stops (by simp [advance, machine, past])
  · rw [if_neg past]
    refine .access (by simp) (fun _ => calm) ?_ (alone_idle (s := s.setObject _))
    simp [advance, machine, past, hold, goto, setObject]

theorem plays_clone (calm : s.Safe (.call t .clone)) :
    s.Plays t (.incrementLoad false) (s.setObject <$> s.object.incrementStrong t (s.shortId t)) := by
  rw [Plays, Object.incrementStrong]
  cases taken : s.object.header.biased.attemptIncrement (s.shortId t) with
  | some new =>
      have load : (s.machine.goto t (.incrementLoad false)).advance t false =
          .ok (s.machine.goto t (.incrementStore false new)) := by
        simp [advance, machine, taken, goto_goto]
      refine .plain rfl load (.plain rfl ?_ (alone_idle (s := s.setObject _)))
      simp [advance, machine, hold, goto, setObject]
  | none =>
      have load : (s.machine.goto t (.incrementLoad false)).advance t false =
          .ok (s.machine.goto t .sharedIncrement) := by
        simp [advance, machine, taken, goto_goto]
      exact .plain rfl load (plays_cloneShared (calm taken))

theorem plays_upgrade : s.Plays t (.incrementLoad true) (s.upgrade t) := by
  rw [Plays, upgrade, Object.incrementStrongUnlessZero]
  cases taken : s.object.header.biased.attemptIncrement (s.shortId t) with
  | some new =>
      have load : (s.machine.goto t (.incrementLoad true)).advance t false =
          .ok (s.machine.goto t (.incrementStore true new)) := by
        simp [advance, machine, taken, goto_goto]
      refine .plain rfl load (.plain rfl ?_ alone_idle)
      simp [advance, machine, hold, goto, setObject, answer]
  | none =>
      have load : (s.machine.goto t (.incrementLoad true)).advance t false =
          .ok (s.machine.goto t .upgradeLoad) := by
        simp [advance, machine, taken, goto_goto]
      refine .plain rfl load ?_
      cases attempted : s.object.header.shared.upgraded with
      | error fault =>
          exact .stops (by simp [advance, machine, tryUpgrade, attempted, bind, Except.bind])
      | ok next =>
          cases next with
          | none =>
              refine .plain rfl ?_ alone_idle
              simp [advance, machine, tryUpgrade, attempted, bind, Except.bind, pure, Except.pure,
                answer, goto, setObject]
          | some new =>
              have decided : (s.machine.goto t .upgradeLoad).advance t false =
                  .ok (s.machine.goto t (.upgradeExchange s.object.header.shared new)) := by
                simp [advance, machine, tryUpgrade, attempted, bind, Except.bind, pure, Except.pure,
                  goto_goto]
              refine .plain rfl decided (.plain rfl ?_ alone_idle)
              simp [advance, machine, hold, goto, setObject, answer]

theorem plays_downgrade (unlocked : s.object.weakCount ≠ weakLockedCount) :
    s.Plays t .downgradeLoad (s.setObject <$> s.object.downgrade t) := by
  have load : (s.machine.goto t .downgradeLoad).advance t false =
      .ok (s.machine.goto t (.downgradeExchange s.object.weakCount)) := by
    simp [advance, machine, goto_goto]
  rw [Plays, Object.downgrade]
  refine .plain rfl load ?_
  by_cases past : weakOverflowThreshold < s.object.weakCount.toNat
  · rw [if_pos past]
    exact .stops (by simp [advance, machine, unlocked, past])
  · rw [if_neg past]
    refine .plain rfl ?_ (alone_idle (s := s.setObject _))
    simp [advance, machine, unlocked, past, goto, setObject]

theorem plays_cloneWeak : s.Plays t .weakIncrement (s.setObject <$> s.object.cloneWeak t) := by
  rw [Plays, Object.cloneWeak]
  by_cases past : weakOverflowThreshold < s.object.weakCount.toNat
  · rw [if_pos past]
    exact .stops (by simp [advance, machine, past])
  · rw [if_neg past]
    refine .plain rfl ?_ (alone_idle (s := s.setObject _))
    simp [advance, machine, past, goto, setObject]

theorem plays_dropWeak : s.Plays t .weakDecrement (.ok (s.setObject (s.object.releaseWeak t))) := by
  refine .plain rfl ?_ alone_idle
  simp [advance, machine, goto, setObject, Object.releaseWeak, Object.dropWeak]

/-- The lock is given back, and the call has changed nothing. -/
theorem plays_isUnique : s.Plays t .uniqueLoad (.ok s) := by
  by_cases other : s.object.header.biased.isDefinitelyNotUnique (s.shortId t)
  · refine .plain rfl ?_ alone_idle
    simp [advance, machine, other, goto_goto]
  · have load : (s.machine.goto t .uniqueLoad).advance t false = .ok (s.machine.goto t .uniqueLock) := by
      simp [advance, machine, other, goto_goto]
    refine .plain rfl load ?_
    by_cases alone : s.object.weakCount = 1#32
    · have lock : (s.machine.goto t .uniqueLock).advance t false =
          .ok ({ s.machine with weakCount := weakLockedCount }.goto t .uniqueSharedLoad) := by
        simp [advance, machine, alone, goto]
      refine .plain rfl lock ?_
      refine .plain rfl (by simp only [advance, pc_goto_self, goto_goto]; rfl) ?_
      refine .plain rfl (by simp only [advance, pc_goto_self, goto_goto]; rfl) ?_
      refine .plain rfl ?_ alone_idle
      simp [advance, machine, goto, alone]
    · refine .plain rfl ?_ alone_idle
      simp [advance, machine, alone, goto_goto]

/-- The two accesses of a destruction. -/
theorem alone_destroy {ob : Object pw Tid} (entry : Option ShortThreadId) :
    Alone t (Machine.goto { (s.setObject ob).machine with
        entry := entry, decided := ob.destroyed + 1 } t .destroy)
      (machine <$> Except.ok { s.setObject ob.dealloc with entry := entry }) := by
  have destroyed : (Machine.goto { (s.setObject ob).machine with
        entry := entry, decided := ob.destroyed + 1 } t .destroy).advance t false =
      .ok (Machine.goto { (s.setObject ob).machine with
        entry := entry, decided := ob.destroyed + 1, destroyed := ob.destroyed + 1 } t
          .releaseImplicit) := by
    simp [advance, machine, goto, setObject]
  refine .plain rfl destroyed (.plain rfl ?_ alone_idle)
  simp [advance, machine, goto, setObject, Object.dealloc, Object.dropWeak]

/-- `decrement_biased_slow`. -/
theorem plays_slow : s.Plays t .slowMerge (.ok (s.setObject (s.object.decrementBiasedSlow t))) := by
  rw [Plays, Object.decrementBiasedSlow]
  by_cases last : s.object.header.shared.sharedCount.value = 0
  · have merge : (s.machine.goto t .slowMerge).advance t false = .ok (Machine.goto { s.machine with
        header := s.object.header.fetchOrMerged
        strong := lower s.object.strong t
        decided := s.object.destroyed + 1 } t (.slowRelease true)) := by
      simp [advance, machine, hold, goto, last]
    rw [if_pos last]
    refine .plain rfl merge (.plain rfl ?_ (alone_destroy s.entry))
    simp [advance, machine, goto, setObject]
  · have merge : (s.machine.goto t .slowMerge).advance t false = .ok (Machine.goto { s.machine with
        header := s.object.header.fetchOrMerged
        strong := lower s.object.strong t } t (.slowRelease false)) := by
      simp [advance, machine, hold, goto, last]
    rw [if_neg last]
    refine .plain rfl merge (.plain rfl ?_ alone_idle)
    simp [advance, machine, goto, setObject]

/-- `decrement_shared_do_queue`. -/
theorem plays_queue {ob : Object pw Tid} : (s.setObject ob).Plays t .queueLoad (s.release ob true) := by
  rw [Plays, release, if_pos rfl]
  cases owned : ob.header.biased.ownerId with
  | none => exact .stops (by simp [advance, machine, setObject, owned])
  | some owner =>
      have load : ((s.setObject ob).machine.goto t .queueLoad).advance t false =
          .ok ((s.setObject ob).machine.goto t (.queuePush owner)) := by
        simp [advance, machine, setObject, owned, goto_goto]
      refine .plain rfl load (.plain rfl ?_ alone_idle)
      simp [advance, machine, goto, setObject]

/-- `decrement_shared`, with the push of the winner. -/
theorem plays_decrementShared : s.Plays t .sharedLoad (do
    let (ob, won) ← s.object.decrementShared t
    s.release ob won) := by
  rw [Plays, Object.decrementShared]
  cases attempted : s.object.header.shared.decremented with
  | error fault =>
      have stopped : (s.machine.goto t .sharedLoad).advance t false = .error fault := by
        simp [advance, machine, tryDecrement, attempted, bind, Except.bind]
      exact .stops stopped
  | ok new =>
      have load : (s.machine.goto t .sharedLoad).advance t false =
          .ok (s.machine.goto t (.sharedExchange s.object.header.shared new)) := by
        simp [advance, machine, tryDecrement, attempted, bind, Except.bind, pure, Except.pure,
          goto_goto]
      refine .plain rfl load ?_
      simp only [bind, Except.bind]
      by_cases won : s.object.header.shared.wonQueue new
      · have exchange : (s.machine.goto t (.sharedExchange s.object.header.shared new)).advance t false =
            .ok ((s.setObject { s.object with
              header := s.object.header.storeShared new
              strong := lower s.object.strong t }).machine.goto t .queueLoad) := by
          simp [advance, machine, hold, goto, setObject, won]
        refine .plain rfl exchange ?_
        rw [if_pos won]
        exact plays_queue
      · rw [if_neg won]
        by_cases dead : new.isDead
        · rw [if_pos dead]
          refine .plain rfl ?_ (alone_destroy s.entry)
          simp [advance, machine, hold, goto, setObject, won, dead]
        · rw [if_neg dead]
          refine .plain rfl ?_ alone_idle
          simp [advance, machine, hold, goto, setObject, won, dead]

theorem plays_drop : s.Plays t .decrementLoad (s.drop t) := by
  rw [Plays, drop, Object.decrementStrong]
  cases chosen : s.object.header.biased.decrementBiased (s.shortId t) with
  | store new =>
      have load : (s.machine.goto t .decrementLoad).advance t false =
          .ok (s.machine.goto t (.decrementStore new)) := by
        simp [advance, machine, chosen, goto_goto]
      refine .plain rfl load (.plain rfl ?_ alone_idle)
      simp [advance, machine, hold, goto, setObject]
  | slow =>
      have load : (s.machine.goto t .decrementLoad).advance t false =
          .ok (s.machine.goto t .slowMerge) := by
        simp [advance, machine, chosen, goto_goto]
      exact .plain rfl load plays_slow
  | notOwner =>
      have load : (s.machine.goto t .decrementLoad).advance t false =
          .ok (s.machine.goto t .sharedLoad) := by
        simp [advance, machine, chosen, goto_goto]
      exact .plain rfl load plays_decrementShared

/-- `explicit_merge`, of an entry that has been taken out of its queue. -/
theorem plays_merge {id : ShortThreadId} : Plays { s with entry := none } t (.mergeLoad id)
    ((fun ob => { s.setObject ob with entry := none }) <$> s.object.explicitMerge id) := by
  rw [Plays, Object.explicitMerge]
  let popped : Pause pw Tid := { s with entry := none }
  by_cases owned : s.object.header.biased.ownerId = some id
  · rw [if_neg (not_not_intro owned)]
    have load : (popped.machine.goto t (.mergeLoad id)).advance t false =
        .ok (popped.machine.goto t (.mergeSharedLoad s.object.header.biased.biasedCount)) := by
      simp [advance, machine, popped, owned, goto_goto]
    refine .plain rfl load ?_
    cases attempted : s.object.header.shared.mergedWith s.object.header.biased.biasedCount with
    | error fault =>
        have stopped : (popped.machine.goto t
            (.mergeSharedLoad s.object.header.biased.biasedCount)).advance t false =
            .error fault := by
          simp [advance, machine, popped, tryMerge, attempted, bind, Except.bind]
        exact .stops stopped
    | ok new =>
        have load : (popped.machine.goto t
            (.mergeSharedLoad s.object.header.biased.biasedCount)).advance t false =
            .ok (popped.machine.goto t (.mergeExchange s.object.header.biased.biasedCount
              s.object.header.shared new)) := by
          simp [advance, machine, popped, tryMerge, attempted, bind, Except.bind, pure, Except.pure,
            goto_goto]
        refine .plain rfl load ?_
        simp only [bind, Except.bind]
        by_cases dead : new.sharedCount.value = 0
        · have exchange : (popped.machine.goto t (.mergeExchange s.object.header.biased.biasedCount
              s.object.header.shared new)).advance t false = .ok (Machine.goto { popped.machine with
                header := s.object.header.storeShared new
                decided := s.object.destroyed + 1 } t (.mergeRelease new)) := by
            simp [advance, machine, popped, goto, dead]
          rw [if_neg (by omega), if_pos dead]
          refine .plain rfl exchange (.plain rfl ?_ (alone_destroy none))
          simp [advance, machine, popped, goto, setObject, dead]
        · have exchange : (popped.machine.goto t (.mergeExchange s.object.header.biased.biasedCount
              s.object.header.shared new)).advance t false = .ok (Machine.goto { popped.machine with
                header := s.object.header.storeShared new } t (.mergeRelease new)) := by
            simp [advance, machine, popped, goto, dead]
          refine .plain rfl exchange ?_
          by_cases negative : new.sharedCount.value < 0
          · rw [if_pos negative]
            exact .stops (by simp [advance, negative])
          · rw [if_neg negative, if_neg dead]
            refine .plain rfl ?_ alone_idle
            simp [advance, machine, popped, goto, setObject, negative, dead]
  · rw [if_pos owned]
    exact .stops (by simp [advance, machine, owned])

/-- Each call, from its first access on. -/
theorem plays_call {op : Op} (unlocked : s.object.weakCount ≠ weakLockedCount)
    (calm : s.Safe (.call t op)) : s.Plays t op.entryPoint (s.call t op) := by
  cases op with
  | clone => exact plays_clone calm
  | cloneShared => exact plays_cloneShared calm
  | upgrade => exact plays_upgrade
  | drop => exact plays_drop
  | downgrade => exact plays_downgrade unlocked
  | cloneWeak => exact plays_cloneWeak
  | dropWeak => exact plays_dropWeak
  | isUnique => exact plays_isUnique

/-- From this pause the interleavings reach that result, or the access that it stems from. -/
def Interleaves (s : Pause pw Tid) (t : Tid) (result : Except Fault (Pause pw Tid)) : Prop :=
  (∀ s', result = .ok s' → ∃ order, Run (races pw Tid) s.machine order s'.machine) ∧
    ∀ fault, result = .error fault →
      ∃ order m, Run (races pw Tid) s.machine order m ∧ m.advance t false = .error fault

theorem interleaves_of_step {result : Except Fault (Pause pw Tid)} {m : Machine pw Tid} (act : Act Tid)
    (taken : (races pw Tid).step s.machine act m) (alone : Alone t m (machine <$> result)) :
    s.Interleaves t result := by
  obtain ⟨ends, stops⟩ := alone.run
  constructor
  · rintro s' rfl
    obtain ⟨order, run⟩ := ends s'.machine rfl
    exact ⟨act :: order, .cons taken run⟩
  · rintro fault rfl
    obtain ⟨order, m', run, stopped⟩ := stops fault rfl
    exact ⟨act :: order, m', .cons taken run, stopped⟩

theorem interleaves_of_once {s' : Pause pw Tid} (act : Act Tid)
    (taken : (races pw Tid).step s.machine act s'.machine) : s.Interleaves t (.ok s') := by
  constructor
  · rintro _ ⟨⟩
    exact ⟨[act], .cons taken .nil⟩
  · rintro fault ⟨⟩

theorem interleaves_take {turn : Turn Tid} (unlocked : s.object.weakCount ≠ weakLockedCount)
    (enabled : s.enabled turn) (calm : s.Safe turn) : s.Interleaves turn.thread (s.take turn) := by
  cases turn with
  | call t op =>
      refine interleaves_of_step (.start t op) ⟨trivial, ?_⟩ (plays_call unlocked calm)
      exact if_pos ⟨rfl, enabled⟩
  | merge t =>
      obtain ⟨id, entry, may⟩ := enabled
      have entry : s.entry = some id := entry
      simp only [take, entry]
      have taken : s.machine.next (.merge t) =
          some (Machine.goto { s.machine with entry := none } t (.mergeLoad id)) := by
        have listed : s.machine.entry = some id := entry
        simp only [Machine.next, listed]
        exact if_pos ⟨rfl, may⟩
      exact interleaves_of_step (.merge t) ⟨trivial, taken⟩ plays_merge
  | die t =>
      have taken : s.machine.next (.die t) =
          some { s.machine with shortId := Function.update s.shortId t none } := by
        simp [Machine.next, machine]
      exact interleaves_of_once (.die t) ⟨trivial, taken⟩
  | send source target =>
      exact interleaves_of_once (.send source target) ⟨trivial, if_pos ⟨rfl, enabled⟩⟩
  | sendWeak source target =>
      exact interleaves_of_once (.sendWeak source target) ⟨trivial, if_pos ⟨rfl, enabled⟩⟩

/-- No thread is inside `is_unique`. -/
theorem unlocked_of_reachable (reached : (races pw Tid).Reachable s.machine) :
    s.object.weakCount ≠ weakLockedCount := by
  have below := ((weighed_of_reachable reached).counted fun _ => rfl).2
  intro locked
  have locked : s.machine.weakCount = weakLockedCount := locked
  rw [locked] at below
  revert below
  decide

end Pause

/-- Every history of whole calls is one of the interleavings; and a call that would stop there
    stops with the same fault when its accesses are taken one by one. -/
theorem uninterrupted_calls_interleave {s s' : Pause pw Tid} {turns : List (Turn Tid)}
    (start : s.machine.WeakAgrees) (run : Run ((wholeCalls pw Tid).restrict Pause.Safe) s turns s') :
    (∃ order, Run (Machine.races pw Tid) s.machine order s'.machine) ∧
      ∀ turn fault, s'.enabled turn → s'.Safe turn → s'.take turn = .error fault →
        ∃ order m, Run (Machine.races pw Tid) s.machine order m ∧
          m.advance turn.thread false = .error fault := by
  have from_start {s' : Pause pw Tid} {order} (run : Run (Machine.races pw Tid) s.machine order s'.machine) :
      s'.object.weakCount ≠ weakLockedCount :=
    Pause.unlocked_of_reachable ((Reachable.start start).run run)
  have interleaved : ∃ order, Run (Machine.races pw Tid) s.machine order s'.machine := by
    induction run with
    | nil => exact ⟨[], .nil⟩
    | @snoc turns mid turn s' _ taken ih =>
        obtain ⟨order, before⟩ := ih
        obtain ⟨calm, taken⟩ := taken
        obtain ⟨enabled, returned⟩ := Option.ite_none_right_eq_some.mp taken
        obtain ⟨order', after⟩ := (Pause.interleaves_take (from_start before) enabled calm).1 s'
          (Outcome.toOption_eq_some.mp returned)
        exact ⟨order ++ order', before.trans after⟩
  refine ⟨interleaved, ?_⟩
  intro turn fault enabled calm stops
  obtain ⟨order, before⟩ := interleaved
  obtain ⟨order', m, after, stopped⟩ :=
    (Pause.interleaves_take (from_start before) enabled calm).2 fault stops
  exact ⟨order ++ order', m, before.trans after, stopped⟩

/-- The pause of `Machine.twoBrcs`. -/
def Pause.twoBrcs : Pause .w64 (Fin 2) where
  object :=
    { header := (Machine.twoBrcs (0 : Fin 2)).header
      weakCount := 1
      freed := false
      strong := fun _ => 1
      weak := fun _ => 0
      destroyed := 0
      premature := false
      pushed := 0 }
  shortId t := if t = 0 then some .first else none
  entry := none
  upgrades := []

/-- A clone of the owner is dropped elsewhere, and the object is queued, merged and freed. -/
theorem uninterrupted_calls_interleave_of_queued : ∃ (s : Pause .w64 (Fin 2)) (order : List (Act (Fin 2))),
    s.object.freed = true ∧
      Run (Machine.races .w64 (Fin 2)) (Machine.twoBrcs 0) order s.machine := by
  have queued : (replay (guarded Pause.Safe Pause.next) Pause.twoBrcs
      [.call 0 .clone, .send 0 1, .call 1 .drop, .call 1 .drop, .call 0 .isUnique, .merge 0,
        .call 0 .downgrade, .call 0 .drop, .call 0 .upgrade, .call 0 .dropWeak]).any
      (fun s => s.object.freed) = true := by decide +kernel
  obtain ⟨s, ends, freed⟩ := (Option.any_eq_true _ _).mp queued
  have run : Run ((wholeCalls .w64 (Fin 2)).restrict Pause.Safe) Pause.twoBrcs _ s := .of_replay ends
  obtain ⟨⟨order, interleaved⟩, _⟩ :=
    uninterrupted_calls_interleave (s := Pause.twoBrcs) Machine.weakAgrees_twoBrcs run
  exact ⟨s, order, freed, interleaved⟩

end BiasedRc
