import BiasedRc.Header
import BiasedRc.Lib.Outcome
import BiasedRc.Lib.Tally
import BiasedRc.Lib.Transition

/-! # One header under interleaved atomic steps

Every load, store, exchange and fetch-and-modify of the header is a step of its
own here, and the calls of any number of threads interleave between them. What a
call has loaded so far is in its program counter. The owner's queue appears only
as the entry that a pushed object leaves in it. An addition that goes past its
overflow threshold ends the run at once.

Memory keeps its content after it is deallocated, so a step that touches a
deallocated header is a step of the machine and can be ruled out or exhibited.
-/

namespace BiasedRc

open Tally Outcome

/-- The next access of a thread. -/
inductive Pc (pw : PointerWidth) where
  | idle
  /-- `attempt_biased_increment`, for a clone or for an upgrade. -/
  | incrementLoad (upgrade : Bool)
  | incrementStore (upgrade : Bool) (new : BiasedWord)
  /-- `fetch_add` of `increment_strong_shared`. -/
  | sharedIncrement
  /-- `fetch_update` of `increment_strong_unless_zero`. -/
  | upgradeLoad
  | upgradeExchange (old new : SharedWord pw)
  /-- `decrement_biased`. -/
  | decrementLoad
  | decrementStore (new : BiasedWord)
  /-- `decrement_biased_slow`. -/
  | slowMerge
  | slowRelease (shouldDrop : Bool)
  /-- `decrement_shared`. -/
  | sharedLoad
  | sharedExchange (old new : SharedWord pw)
  /-- `decrement_shared_do_queue`. -/
  | queueLoad
  | queuePush (owner : ShortThreadId)
  /-- `explicit_merge`. -/
  | mergeLoad (biasedTid : ShortThreadId)
  | mergeSharedLoad (biased : BiasedCount)
  | mergeExchange (biased : BiasedCount) (old new : SharedWord pw)
  | mergeRelease (new : SharedWord pw)
  /-- `DropInfo::dealloc`: the value, then the implicit weak reference. -/
  | destroy
  | releaseImplicit
  /-- `Brc::downgrade`. -/
  | downgradeLoad
  | downgradeExchange (old : BitVec 32)
  /-- `Weak::clone` and `Weak::drop`. -/
  | weakIncrement
  | weakDecrement
  /-- `Brc::is_unique`, with the numbers of handles at the load of the shared word. -/
  | uniqueLoad
  | uniqueLock
  | uniqueSharedLoad
  | uniqueBiasedLoad (shared : SharedWord pw) (strong weak : Nat)
  | uniqueUnlock (result : Bool) (strong weak : Nat)
  deriving DecidableEq

namespace Pc

variable {pw : PointerWidth}

/-- The next access is to `shared_word` or `biased_word`. -/
def touchesHeader : Pc pw → Bool
  | .idle | .queuePush _ | .destroy | .releaseImplicit | .downgradeLoad | .downgradeExchange _
  | .weakIncrement | .weakDecrement | .uniqueLock | .uniqueUnlock _ _ _ => false
  | _ => true

/-- The header is merged and this call has yet to clear the owner. -/
def releasing : Pc pw → Bool
  | .slowRelease _ | .mergeRelease _ => true
  | _ => false

/-- The call is made through a strong handle of its thread. -/
def holdsStrong : Pc pw → Bool
  | .incrementLoad upgrade | .incrementStore upgrade _ => !upgrade
  | .sharedIncrement | .decrementLoad | .decrementStore _ | .slowMerge | .sharedLoad
  | .sharedExchange _ _ | .downgradeLoad | .downgradeExchange _ | .uniqueLoad | .uniqueLock
  | .uniqueSharedLoad | .uniqueBiasedLoad _ _ _ | .uniqueUnlock _ _ _ => true
  | _ => false

/-- The call is made through a weak handle of its thread. -/
def holdsWeak : Pc pw → Bool
  | .incrementLoad upgrade | .incrementStore upgrade _ => upgrade
  | .upgradeLoad | .upgradeExchange _ _ | .weakIncrement | .weakDecrement => true
  | _ => false

/-- The call has the object's queue entry in its hands. -/
def token : Pc pw → Nat
  | .queueLoad | .queuePush _ | .mergeLoad _ | .mergeSharedLoad _ | .mergeExchange _ _ _
  | .mergeRelease _ => 1
  | _ => 0

/-- The weak count is locked by this call. -/
def locks : Pc pw → Bool
  | .uniqueSharedLoad | .uniqueBiasedLoad _ _ _ | .uniqueUnlock _ _ _ => true
  | _ => false

end Pc

/-- What an upgrade returned, with what was true of the object at that moment. -/
structure Answer where
  isSome : Bool
  decided : Nat
  strong : Nat

/-- The header, the threads and the accounting around them. -/
structure Machine (pw : PointerWidth) (Tid : Type) where
  header : RawBrcHeader pw
  weakCount : BitVec 32
  shortId : Tid → Option ShortThreadId
  pc : Tid → Pc pw
  /-- The entry for the object in the queue of the thread with this id. -/
  entry : Option ShortThreadId
  strong : Tid → Nat
  weak : Tid → Nat
  /-- How often a call has decided to destroy the value. -/
  decided : Nat
  destroyed : Nat
  freed : Bool
  upgrades : List Answer

/-- The calls a thread can start. -/
inductive Op where
  | clone
  | cloneShared
  | upgrade
  | drop
  | downgrade
  | cloneWeak
  | dropWeak
  | isUnique
  deriving DecidableEq

/-- Where a call begins. -/
def Op.entryPoint {pw : PointerWidth} : Op → Pc pw
  | .clone => .incrementLoad false
  | .cloneShared => .sharedIncrement
  | .upgrade => .incrementLoad true
  | .drop => .decrementLoad
  | .downgrade => .downgradeLoad
  | .cloneWeak => .weakIncrement
  | .dropWeak => .weakDecrement
  | .isUnique => .uniqueLoad

/-- The steps. An exchange of the weak kind fails when it is told to. -/
inductive Act (Tid : Type) where
  | start (t : Tid) (op : Op)
  | advance (t : Tid) (spurious : Bool)
  /-- A thread takes the queue entry and begins `explicit_merge`. -/
  | merge (t : Tid)
  /-- The local state of a thread is destroyed. -/
  | die (t : Tid)
  | send (source target : Tid)
  | sendWeak (source target : Tid)
  deriving DecidableEq

namespace Machine

variable {pw : PointerWidth} {Tid : Type} [DecidableEq Tid]

/-- No call has been made, and of all threads only `owner` has an id. -/
def quiet (owner : Tid) (header : RawBrcHeader pw) (weakCount : BitVec 32)
    (strong weak : Tid → Nat) : Machine pw Tid where
  header := header
  weakCount := weakCount
  shortId t := if t = owner then some .first else none
  pc _ := .idle
  entry := none
  strong := strong
  weak := weak
  decided := 0
  destroyed := 0
  freed := false
  upgrades := []

def goto (m : Machine pw Tid) (t : Tid) (pc : Pc pw) : Machine pw Tid :=
  { m with pc := Function.update m.pc t pc }

section Goto

variable {m : Machine pw Tid} {t : Tid} {pc : Pc pw}

@[simp] theorem header_goto : (m.goto t pc).header = m.header := rfl

@[simp] theorem weakCount_goto : (m.goto t pc).weakCount = m.weakCount := rfl

@[simp] theorem shortId_goto : (m.goto t pc).shortId = m.shortId := rfl

@[simp] theorem entry_goto : (m.goto t pc).entry = m.entry := rfl

@[simp] theorem strong_goto : (m.goto t pc).strong = m.strong := rfl

@[simp] theorem weak_goto : (m.goto t pc).weak = m.weak := rfl

@[simp] theorem decided_goto : (m.goto t pc).decided = m.decided := rfl

@[simp] theorem destroyed_goto : (m.goto t pc).destroyed = m.destroyed := rfl

@[simp] theorem freed_goto : (m.goto t pc).freed = m.freed := rfl

@[simp] theorem upgrades_goto : (m.goto t pc).upgrades = m.upgrades := rfl

@[simp] theorem pc_goto_self : (m.goto t pc).pc t = pc := Function.update_self ..

theorem pc_goto_of_ne {t'} (other : t' ≠ t) : (m.goto t pc).pc t' = m.pc t' :=
  Function.update_of_ne other ..

end Goto

/-- The thread of this id may run `explicit_merge`; once it is gone, any thread may. -/
def MayMerge (m : Machine pw Tid) (t : Tid) (id : ShortThreadId) : Prop :=
  m.shortId t = some id ∨ ∀ t', m.shortId t' ≠ some id

instance [Fintype Tid] (m : Machine pw Tid) (t : Tid) (id : ShortThreadId) :
    Decidable (m.MayMerge t id) := inferInstanceAs (Decidable (_ ∨ _))

/-- Decide on the word that `decrement_shared` is to exchange in. -/
def tryDecrement (m : Machine pw Tid) (t : Tid) : Except Fault (Machine pw Tid) := do
  let new ← m.header.shared.decremented
  return m.goto t (.sharedExchange m.header.shared new)

def tryMerge (m : Machine pw Tid) (t : Tid) (biased : BiasedCount) :
    Except Fault (Machine pw Tid) := do
  let new ← m.header.shared.mergedWith biased
  return m.goto t (.mergeExchange biased m.header.shared new)

variable [Fintype Tid]

/-- An upgrade of thread `t` returns. -/
def answer (m : Machine pw Tid) (t : Tid) (isSome : Bool) : Machine pw Tid :=
  { m.goto t .idle with upgrades := m.upgrades ++ [⟨isSome, m.decided, total m.strong⟩] }

def tryUpgrade (m : Machine pw Tid) (t : Tid) : Except Fault (Machine pw Tid) := do
  match ← m.header.shared.upgraded with
  | none => return m.answer t false
  | some new => return m.goto t (.upgradeExchange m.header.shared new)

/-- A call gives up or gets a strong handle. -/
def hold (m : Machine pw Tid) (header : RawBrcHeader pw) (strong : Tid → Nat) : Machine pw Tid :=
  { m with header := header, strong := strong }

/-- The next access of thread `t`. -/
def advance (m : Machine pw Tid) (t : Tid) (spurious : Bool) : Except Fault (Machine pw Tid) :=
  match m.pc t with
  | .idle => .ok m
  | .incrementLoad upgrade =>
      match m.header.biased.attemptIncrement (m.shortId t) with
      | some new => .ok (m.goto t (.incrementStore upgrade new))
      | none => .ok (m.goto t (if upgrade then .upgradeLoad else .sharedIncrement))
  | .incrementStore upgrade new =>
      let m' := m.hold (m.header.storeBiased new) (raise m.strong t)
      .ok (if upgrade then m'.answer t true else m'.goto t .idle)
  | .sharedIncrement =>
      if RawBrcHeader.pastThreshold m.header.shared then .error .sharedRefcntOverflow
      else .ok ((m.hold m.header.fetchAddShared (raise m.strong t)).goto t .idle)
  | .upgradeLoad => m.tryUpgrade t
  | .upgradeExchange old new =>
      if !spurious && m.header.shared = old then
        .ok ((m.hold (m.header.storeShared new) (raise m.strong t)).answer t true)
      else m.tryUpgrade t
  | .decrementLoad =>
      match m.header.biased.decrementBiased (m.shortId t) with
      | .store new => .ok (m.goto t (.decrementStore new))
      | .slow => .ok (m.goto t .slowMerge)
      | .notOwner => .ok (m.goto t .sharedLoad)
  | .decrementStore new =>
      .ok ((m.hold (m.header.storeBiased new) (lower m.strong t)).goto t .idle)
  | .slowMerge =>
      let shouldDrop : Bool := m.header.shared.sharedCount.value = 0
      .ok (({ m.hold m.header.fetchOrMerged (lower m.strong t) with
        decided := m.decided + shouldDrop.toNat }).goto t (.slowRelease shouldDrop))
  | .slowRelease shouldDrop =>
      .ok (({ m with header := m.header.storeBiased .unowned }).goto t
        (if shouldDrop then .destroy else .idle))
  | .sharedLoad => m.tryDecrement t
  | .sharedExchange old new =>
      if !spurious && m.header.shared = old then
        let m' := m.hold (m.header.storeShared new) (lower m.strong t)
        if old.wonQueue new then .ok (m'.goto t .queueLoad)
        else if new.isDead then .ok (({ m' with decided := m.decided + 1 }).goto t .destroy)
        else .ok (m'.goto t .idle)
      else m.tryDecrement t
  | .queueLoad =>
      match m.header.biased.ownerId with
      | none => .error .negativeRefcntNoOwner
      | some owner => .ok (m.goto t (.queuePush owner))
  | .queuePush owner => .ok (({ m with entry := some owner }).goto t .idle)
  | .mergeLoad biasedTid =>
      if m.header.biased.ownerId ≠ some biasedTid then .error .explicitMergeBadId
      else .ok (m.goto t (.mergeSharedLoad m.header.biased.biasedCount))
  | .mergeSharedLoad biased => m.tryMerge t biased
  | .mergeExchange biased old new =>
      if !spurious && m.header.shared = old then
        let isDead : Bool := new.sharedCount.value = 0
        .ok (({ m with
          header := m.header.storeShared new
          decided := m.decided + isDead.toNat }).goto t (.mergeRelease new))
      else m.tryMerge t biased
  | .mergeRelease new =>
      let m' := { m with header := m.header.storeBiased .unowned }
      if new.sharedCount.value < 0 then .error .negativeRefcntMerge
      else .ok (m'.goto t (if new.sharedCount.value = 0 then .destroy else .idle))
  | .destroy => .ok (({ m with destroyed := m.destroyed + 1 }).goto t .releaseImplicit)
  | .releaseImplicit =>
      .ok (({ m with
        weakCount := m.weakCount - 1
        freed := m.freed || m.weakCount == 1 }).goto t .idle)
  | .downgradeLoad => .ok (m.goto t (.downgradeExchange m.weakCount))
  | .downgradeExchange old =>
      if old = weakLockedCount then .ok (m.goto t (.downgradeExchange m.weakCount))
      else if weakOverflowThreshold < old.toNat then .error .weakRefcntOverflow
      else if !spurious && m.weakCount = old then
        .ok (({ m with weakCount := m.weakCount + 1, weak := raise m.weak t }).goto t .idle)
      else .ok (m.goto t (.downgradeExchange m.weakCount))
  | .weakIncrement =>
      if weakOverflowThreshold < m.weakCount.toNat then .error .weakRefcntOverflow
      else .ok (({ m with weakCount := m.weakCount + 1, weak := raise m.weak t }).goto t .idle)
  | .weakDecrement =>
      .ok (({ m with
        weakCount := m.weakCount - 1
        weak := lower m.weak t
        freed := m.freed || m.weakCount == 1 }).goto t .idle)
  | .uniqueLoad =>
      .ok (m.goto t
        (if m.header.biased.isDefinitelyNotUnique (m.shortId t) then .idle else .uniqueLock))
  | .uniqueLock =>
      if m.weakCount = 1 then
        .ok (({ m with weakCount := weakLockedCount }).goto t .uniqueSharedLoad)
      else .ok (m.goto t .idle)
  | .uniqueSharedLoad =>
      .ok (m.goto t (.uniqueBiasedLoad m.header.shared (total m.strong) (total m.weak)))
  | .uniqueBiasedLoad shared strong weak =>
      .ok (m.goto t (.uniqueUnlock
        (RawBrcHeader.isUnique (m.shortId t) shared m.header.biased) strong weak))
  | .uniqueUnlock _ _ _ => .ok (({ m with weakCount := 1 }).goto t .idle)

/-- A call starts on an idle thread that has a handle to make it through. -/
def canStart (m : Machine pw Tid) (t : Tid) : Op → Prop
  | .clone | .cloneShared | .drop | .downgrade | .isUnique => 1 ≤ m.strong t
  | .upgrade | .cloneWeak | .dropWeak => 1 ≤ m.weak t

instance (m : Machine pw Tid) (t : Tid) (op : Op) : Decidable (m.canStart t op) := by
  cases op <;> exact inferInstanceAs (Decidable (1 ≤ _))

def next (m : Machine pw Tid) : Act Tid → Option (Machine pw Tid)
  | .start t op => if m.pc t = .idle ∧ m.canStart t op then some (m.goto t op.entryPoint) else none
  | .advance t spurious => if m.pc t = .idle then none else (m.advance t spurious).toOption
  | .merge t =>
      match m.entry with
      | none => none
      | some id =>
          if m.pc t = .idle ∧ m.MayMerge t id then
            some (({ m with entry := none }).goto t (.mergeLoad id))
          else none
  | .die t =>
      if m.pc t = .idle then some { m with shortId := Function.update m.shortId t none } else none
  | .send source target =>
      if m.pc source = .idle ∧ 1 ≤ m.strong source then
        some { m with strong := raise (lower m.strong source) target }
      else none
  | .sendWeak source target =>
      if m.pc source = .idle ∧ 1 ≤ m.weak source then
        some { m with weak := raise (lower m.weak source) target }
      else none

/-- What each step asks for, and what it leaves. -/
inductive Step (m : Machine pw Tid) : Act Tid → Machine pw Tid → Prop where
  | start {t op} (idle : m.pc t = .idle) (may : m.canStart t op) :
      m.Step (.start t op) (m.goto t op.entryPoint)
  | advance {t spurious m'} (busy : m.pc t ≠ .idle) (returned : m.advance t spurious = .ok m') :
      m.Step (.advance t spurious) m'
  | merge {t id} (entry : m.entry = some id) (idle : m.pc t = .idle) (may : m.MayMerge t id) :
      m.Step (.merge t) (({ m with entry := none }).goto t (.mergeLoad id))
  | die {t} (idle : m.pc t = .idle) :
      m.Step (.die t) { m with shortId := Function.update m.shortId t none }
  | send {source target} (idle : m.pc source = .idle) (holds : 1 ≤ m.strong source) :
      m.Step (.send source target) { m with strong := raise (lower m.strong source) target }
  | sendWeak {source target} (idle : m.pc source = .idle) (holds : 1 ≤ m.weak source) :
      m.Step (.sendWeak source target) { m with weak := raise (lower m.weak source) target }

theorem step_of_next {m m' : Machine pw Tid} {act} (taken : m.next act = some m') :
    m.Step act m' := by
  cases act with
  | advance t spurious =>
      simp only [next, Option.ite_none_left_eq_some, toOption_eq_some] at taken
      exact .advance taken.1 taken.2
  | merge t =>
      cases entry : m.entry with
      | none => simp [next, entry] at taken
      | some id =>
          simp only [next, entry, Option.ite_none_right_eq_some, Option.some.injEq] at taken
          obtain ⟨⟨idle, may⟩, rfl⟩ := taken
          exact .merge entry idle may
  | start t op =>
      simp only [next, Option.ite_none_right_eq_some, Option.some.injEq] at taken
      obtain ⟨⟨idle, may⟩, rfl⟩ := taken
      exact .start idle may
  | die t =>
      simp only [next, Option.ite_none_right_eq_some, Option.some.injEq] at taken
      obtain ⟨idle, rfl⟩ := taken
      exact .die idle
  | send source target =>
      simp only [next, Option.ite_none_right_eq_some, Option.some.injEq] at taken
      obtain ⟨⟨idle, holds⟩, rfl⟩ := taken
      exact .send idle holds
  | sendWeak source target =>
      simp only [next, Option.ite_none_right_eq_some, Option.some.injEq] at taken
      obtain ⟨⟨idle, holds⟩, rfl⟩ := taken
      exact .sendWeak idle holds

end Machine

end BiasedRc
