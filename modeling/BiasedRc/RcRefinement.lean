import BiasedRc.Safety

/-! # One thread sees a plain reference count

As long as one thread makes every call on an object, the biased count, the
shared count and the queue cannot be told from two plain counters. The object
never waits in a queue between two calls: its owner drops on the biased path,
and once the owner's state is gone a drop that wins the right to queue the
object merges it in place. So an unmerged header always has a shared count of
zero or more.
-/

namespace BiasedRc

open Tally Outcome Transition System

/-- A value behind a plain reference count, and how often it was destroyed. -/
structure Rc where
  strong : Nat
  weak : Nat
  destroyed : Nat

inductive RcOp where
  | clone
  | drop
  | downgrade
  | cloneWeak
  | dropWeak
  | upgrade

namespace Rc

def new : Rc := ⟨1, 0, 0⟩

/-- An operation goes through a handle of its kind. Only the drop of the last
    strong handle destroys the value. -/
def next (rc : Rc) : RcOp → Option Rc
  | .clone => if 0 < rc.strong then some { rc with strong := rc.strong + 1 } else none
  | .drop =>
      match rc.strong with
      | 0 => none
      | 1 => some { rc with strong := 0, destroyed := rc.destroyed + 1 }
      | n + 2 => some { rc with strong := n + 1 }
  | .downgrade => if 0 < rc.strong then some { rc with weak := rc.weak + 1 } else none
  | .cloneWeak => if 0 < rc.weak then some { rc with weak := rc.weak + 1 } else none
  | .dropWeak => if 0 < rc.weak then some { rc with weak := rc.weak - 1 } else none
  | .upgrade =>
      if 0 < rc.weak then
        some (if 0 < rc.strong then { rc with strong := rc.strong + 1 } else rc)
      else none

def system : System Rc RcOp := .ofNext (fun rc => rc = new) next

/-- A value is destroyed once, when its last strong handle goes. -/
def DestroyedWithLast (rc : Rc) : Prop := rc.destroyed = if rc.strong = 0 then 1 else 0

theorem DestroyedWithLast.next {rc rc' : Rc} {op} (before : rc.DestroyedWithLast)
    (taken : rc.next op = some rc') : rc'.DestroyedWithLast := by
  unfold DestroyedWithLast at *
  cases op <;> simp only [Rc.next] at taken <;> split at taken <;> grind

end Rc

variable {pw : PointerWidth} {Tid Oid : Type}

/-- What thread `t` may call while it is the only one to use the object. -/
def Call.isBy [DecidableEq Tid] [DecidableEq Oid] (t : Tid) (o : Oid) : Call Tid Oid → Bool
  | .clone t' o' _ | .cloneNoCollect t' o' | .cloneShared t' o' | .drop t' o' _
  | .dropNoCollect t' o' | .upgrade t' o' | .downgrade t' o' | .cloneWeak t' o'
  | .dropWeak t' o' => t' = t && o' = o
  | .collect t' _ | .collectForce t' | .threadDeath t' => t' = t
  | .new _ _ _ | .send _ _ _ | .sendWeak _ _ _ => false

theorem Call.same_of_isBy [DecidableEq Tid] [DecidableEq Oid] {t t' : Tid} {o o' : Oid}
    (mine : (t' = t && o' = o : Bool) = true) :
    t' = t ∧ o' = o := by
  simpa only [Bool.and_eq_true, decide_eq_true_eq] using mine

/-- The operation that a call is to its caller. -/
def Call.rcOp : Call Tid Oid → Option RcOp
  | .clone _ _ _ | .cloneNoCollect _ _ | .cloneShared _ _ => some .clone
  | .drop _ _ _ | .dropNoCollect _ _ => some .drop
  | .upgrade _ _ => some .upgrade
  | .downgrade _ _ => some .downgrade
  | .cloneWeak _ _ => some .cloneWeak
  | .dropWeak _ _ => some .dropWeak
  | .new _ _ _ | .collect _ _ | .collectForce _ | .threadDeath _ | .send _ _ _
  | .sendWeak _ _ _ => none

variable [Fintype Tid]

/-- The object shows thread `t` exactly what the plain reference count shows.
    `alive` says that the thread's local state has not been destroyed. -/
structure World.Refines [DecidableEq Tid] [DecidableEq Oid] (w : World pw Tid Oid) (t : Tid)
    (o : Oid) (rc : Rc) (alive : Prop) : Prop where
  object : ∃ ob, w.objects o = some ob ∧ total ob.strong = rc.strong ∧ total ob.weak = rc.weak ∧
    ob.destroyed = rc.destroyed ∧ (ob.freed = true ↔ rc.strong = 0 ∧ rc.weak = 0)
  upgrade : ∀ ob ob' succeeded, w.objects o = some ob →
    ob.incrementStrongUnlessZero t (w.shortId t) = .ok (ob', succeeded) →
    (succeeded = true ↔ 0 < rc.strong)
  strongCount : ∀ ob n, w.objects o = some ob → ob.strongCount (w.shortId t) = .ok n →
    n = rc.strong
  strongCountAlive : alive → ∀ ob, w.objects o = some ob →
    ob.strongCount (w.shortId t) = .ok rc.strong
  isUnique : ∀ ob, w.objects o = some ob → ob.isUnique (w.shortId t) = true →
    rc.strong = 1 ∧ rc.weak = 0
  isUniqueAlive : alive → ∀ ob, w.objects o = some ob → rc.strong = 1 ∧ rc.weak = 0 →
    ob.isUnique (w.shortId t) = true
  /-- Only a counter that runs out of bits ends the process. -/
  aborts : ∀ c fault, c.isBy t o = true → w.enabled c → w.call c = .error fault → fault.Overflow

/-- The invariant behind `Refines`. -/
structure World.OneThread (w : World pw Tid Oid) (t : Tid) (o : Oid) (rc : Rc) (alive : Prop) :
    Prop where
  inv : WorldInv w
  handles : ∃ ob, w.objects o = some ob ∧ (total ob.strong = rc.strong ∧ ob.strong t = rc.strong) ∧
    total ob.weak = rc.weak ∧ ob.weak t = rc.weak
  settled : ∀ id, o ∉ w.queueOf id
  owner : ∀ ob id, w.objects o = some ob → ob.header.biased.ownerId = some id →
    w.shortId t = some id ∨ ¬ alive ∧ w.liveId id = false ∧ (w.fast t).status = .deadOrDying
  destroyed : rc.DestroyedWithLast

namespace World.OneThread

variable {w w' : World pw Tid Oid} {t : Tid} {o : Oid} {rc rc' : Rc} {alive : Prop}
  {ob : Object pw Tid}

theorem weaken {alive' : Prop} (one : w.OneThread t o rc alive) (weaker : alive' → alive) :
    w.OneThread t o rc alive' where
  inv := one.inv
  handles := one.handles
  settled := one.settled
  destroyed := one.destroyed
  owner := by
    intro ob id found owned
    rcases one.owner ob id found owned with same | ⟨dead, rest⟩
    · exact .inl same
    · exact .inr ⟨fun lives => dead (weaker lives), rest⟩

theorem counts (one : w.OneThread t o rc alive) (found : w.objects o = some ob) :
    (total ob.strong = rc.strong ∧ ob.strong t = rc.strong) ∧
      total ob.weak = rc.weak ∧ ob.weak t = rc.weak := by
  obtain ⟨ob', found', handles⟩ := one.handles
  rw [found, Option.some.injEq] at found'
  exact found' ▸ handles

/-- Until its counts are merged the header is owned, un-queued and held. -/
theorem unmerged (one : w.OneThread t o rc alive) (found : w.objects o = some ob)
    (notMerged : ob.header.shared.merged = false) :
    ∃ id, ob.header.biased.ownerId = some id ∧ ob.header.shared.queued = false ∧
      0 ≤ ob.header.shared.sharedCount.value ∧ 1 ≤ ob.header.biased.biasedCount.toNat ∧
      (ob.header.biased.biasedCount.toNat : Int) + ob.header.shared.sharedCount.value = rc.strong := by
  have sound := one.inv.object found
  obtain ⟨id, owner, positive, split⟩ := sound.owned notMerged
  obtain ⟨⟨count, _⟩, _⟩ := one.counts found
  have unqueued : ob.header.shared.queued = false := by
    rw [Bool.eq_false_iff]
    intro queued
    exact one.settled id ((one.inv.queue id o).mpr ⟨ob, found, notMerged, queued, owner⟩)
  exact ⟨id, owner, unqueued, sound.unqueued notMerged unqueued, positive, count ▸ split⟩

theorem merged (one : w.OneThread t o rc alive) (found : w.objects o = some ob)
    (isMerged : ob.header.shared.merged = true) :
    ob.header.biased.ownerId = none ∧ ob.header.shared.sharedCount.value = rc.strong := by
  rw [← (one.counts found).1.1]
  exact (one.inv.object found).released isMerged

theorem noCarry (one : w.OneThread t o rc alive) (found : w.objects o = some ob) :
    ob.header.shared.sharedCount.value ≠ -1 := by
  cases isMerged : ob.header.shared.merged with
  | true =>
      have := (one.merged found isMerged).2
      omega
  | false =>
      obtain ⟨_, _, _, nonnegative, _⟩ := one.unmerged found isMerged
      omega

theorem unqueued (one : w.OneThread t o rc alive) (found : w.objects o = some ob) {thisId}
    (slow : ob.header.biased.decrementBiased thisId = .slow) : ob.header.shared.queued = false := by
  have notMerged := (one.inv.object found).unmerged_of_decrement (by rw [slow]; nofun)
  obtain ⟨_, _, unqueued, _⟩ := one.unmerged found notMerged
  exact unqueued

/-- A call on the object that does not queue it. -/
theorem touches (one : w.OneThread t o rc alive) {strong weak} (touches : w.Touches o strong weak w')
    (settled : ∀ id, o ∉ w'.queueOf id) {op} (taken : rc.next op = some rc')
    (handles : (total strong = rc'.strong ∧ strong t = rc'.strong) ∧
      total weak = rc'.weak ∧ weak t = rc'.weak) : w'.OneThread t o rc' alive where
  inv := touches.inv
  handles := by
    obtain ⟨ob', found', rfl, rfl⟩ := touches.object
    exact ⟨ob', found', handles⟩
  settled := settled
  owner := by
    intro ob' id found' owned
    obtain ⟨ob, found⟩ := touches.before
    rw [touches.shortId, touches.liveId, touches.fast]
    exact one.owner ob id found (touches.owner ob ob' found found' id owned)
  destroyed := one.destroyed.next taken

/-- Only merges happened to objects, and none to this one. -/
theorem drained (one : w.OneThread t o rc alive) (inv : WorldInv w') (drains : w.Drains w')
    {alive' : Prop}
    (owner : ∀ ob id, w.objects o = some ob → ob.header.biased.ownerId = some id →
      w'.shortId t = some id ∨
        ¬ alive' ∧ w'.liveId id = false ∧ (w'.fast t).status = .deadOrDying) :
    w'.OneThread t o rc alive' := by
  obtain ⟨ob, found, handles⟩ := one.handles
  obtain ⟨ob', found', drained⟩ := drains.object found
  refine ⟨inv, ⟨ob', found', by rwa [drained.strong, drained.weak]⟩, ?_, ?_, one.destroyed⟩
  · intro id listed
    obtain ⟨ob'', found'', waits⟩ := (inv.queue id o).mp listed
    rw [found', Option.some.injEq] at found''
    subst found''
    obtain rfl | isMerged := drained.settled
    · exact one.settled id ((one.inv.queue id o).mpr ⟨ob', found, waits⟩)
    · exact Object.not_awaits_of_merged isMerged id waits
  · intro ob'' id found'' owned
    rw [found', Option.some.injEq] at found''
    subst found''
    obtain rfl | isMerged := drained.settled
    · exact owner ob' id found owned
    · rw [((inv.object found').released isMerged).1] at owned
      cases owned

variable [DecidableEq Tid] [DecidableEq Oid]

/-- A thread whose state is gone has nothing to collect. -/
theorem collect_dead (dead : (w.fast t).status = .deadOrDying) (panicking : Bool) :
    w.collect t panicking = .ok w ∧ w.collectForce t = .ok w := by
  simp only [World.collect, World.collectSlow, World.collectForce, World.withCurrent, dead]
  exact ⟨ite_self _, trivial⟩

omit [DecidableEq Tid] [DecidableEq Oid] in
theorem collects (one : w.OneThread t o rc alive) (collects : World.Collects t w w')
    (idle : (w.fast t).status = .deadOrDying → w' = w) : w'.OneThread t o rc alive := by
  apply one.drained collects.inv collects.drains
  intro ob id found owned
  rcases one.owner ob id found owned with same | ⟨gone, dead, status⟩
  · exact .inl (collects.self id same)
  · rw [idle status]
    exact .inr ⟨gone, dead, status⟩

theorem collect (one : w.OneThread t o rc alive) (panicking : Bool) :
    Yields Fault.Overflow (World.OneThread · t o rc alive) (w.collect t panicking) := by
  refine (one.inv.collect panicking).mono_eq fun w' returned collects => ?_
  apply one.collects collects
  intro dead
  rw [(collect_dead dead panicking).1, Except.ok.injEq] at returned
  exact returned.symm

theorem collectForce (one : w.OneThread t o rc alive) :
    Yields Fault.Overflow (World.OneThread · t o rc alive) (w.collectForce t) := by
  refine (one.inv.collectForce.weaken fun _ permitted => permitted.1).mono_eq ?_
  intro w' returned ⟨collects, _⟩
  apply one.collects collects
  intro dead
  rw [(collect_dead dead false).2, Except.ok.injEq] at returned
  exact returned.symm

/-- The owner's id dies with its local state. -/
theorem threadDeath (one : w.OneThread t o rc alive) :
    Yields Fault.Overflow (World.OneThread · t o rc False) (w.threadDeath t) := by
  refine (one.inv.threadDeath.weaken fun _ permitted => permitted.1).mono_eq ?_
  intro w' returned ⟨inv, drains, gone, others, emptied⟩
  apply one.drained inv drains
  intro ob id found owned
  right
  refine ⟨not_false, ?_⟩
  rcases one.owner ob id found owned with same | ⟨_, dead, status⟩
  · refine ⟨?_, (emptied id same).2⟩
    rw [Bool.eq_false_iff, ne_eq, inv.active]
    rintro ⟨t', owned'⟩
    by_cases self : t' = t
    · rw [self, gone] at owned'
      cases owned'
    · rw [others t' self] at owned'
      exact self (one.inv.distinct owned' same)
  · have idle : w.shortId t = none := by
      simp only [World.shortId, LocalThreadStateFast.existingShortId, status]
    simp only [World.threadDeath, idle, Except.ok.injEq] at returned
    exact returned ▸ ⟨dead, status⟩

omit [DecidableEq Tid] [Fintype Tid] in
theorem onObject_queueOf {op} (returned : w.onObject o op = .ok w') : w'.queueOf = w.queueOf := by
  unfold World.onObject at returned
  cases pointed : w.deref o with
  | error fault => simp [pointed, bind, Except.bind] at returned
  | ok ob =>
      cases changed : op ob with
      | error fault => simp [pointed, changed, bind, Except.bind] at returned
      | ok ob' =>
          simp only [pointed, changed, bind, Except.bind, pure, Except.pure,
            Except.ok.injEq] at returned
          exact returned ▸ World.queueOf_setObject

/-- An owner that drops does not queue the object. -/
theorem dropNoCollect_queueOf {id} (found : w.objects o = some ob)
    (owner : ob.header.biased.ownerId = some id) (owned : w.shortId t = some id)
    (returned : w.dropNoCollect t o = .ok w') : w'.queueOf = w.queueOf := by
  have pointed : w.deref o = .ok ob := by
    simp only [World.dropNoCollect, World.deref, found] at returned ⊢
    split at returned
    · cases returned
    · rename_i allocated
      rw [if_neg allocated]
  unfold World.dropNoCollect Object.decrementStrong at returned
  simp only [pointed, bind, Except.bind, owned] at returned
  cases taken : ob.header.biased.decrementBiased (some id) with
  | notOwner =>
      rcases BiasedWord.decrementBiased_eq_notOwner taken with unowned | other
      · rw [owner] at unowned
        cases unowned
      · exact absurd owner.symm other
  | _ =>
      simp only [taken, Bool.false_eq_true, if_false, Except.ok.injEq] at returned
      exact returned ▸ World.queueOf_setObject

/-- What `op` does to the plain count, with the thread's id still there or gone. -/
def Follows (w' : World pw Tid Oid) (t : Tid) (o : Oid) (rc : Rc) (op : RcOp) (alive : Prop) :
    Prop :=
  ∃ rc', rc.next op = some rc' ∧ w'.OneThread t o rc' alive

omit [DecidableEq Tid] in
/-- An operation of the header alone. -/
theorem onObject (one : w.OneThread t o rc alive) {act strong weak op}
    (changed : Yields Fault.Overflow (w.Steps o strong weak) (w.onObject o act))
    (taken : rc.next op = some rc')
    (handles : (total strong = rc'.strong ∧ strong t = rc'.strong) ∧
      total weak = rc'.weak ∧ weak t = rc'.weak) :
    Yields Fault.Overflow (Follows · t o rc op alive) (w.onObject o act) := by
  refine changed.mono_eq fun w' returned steps => ⟨rc', taken, ?_⟩
  apply one.touches steps.toTouches ?_ taken handles
  rw [onObject_queueOf returned]
  exact one.settled

theorem cloned (one : w.OneThread t o rc alive) (held : 0 < rc.strong)
    (found : w.objects o = some ob) {act}
    (changed : Yields Fault.Overflow (w.Steps o (raise ob.strong t) ob.weak) (w.onObject o act)) :
    Yields Fault.Overflow (Follows · t o rc .clone alive) (w.onObject o act) := by
  obtain ⟨⟨count, self⟩, weakCount, weakSelf⟩ := one.counts found
  have taken : rc.next .clone = some { rc with strong := rc.strong + 1 } := if_pos held
  apply one.onObject changed taken
  simp only [total_raise, raise_self]
  omega

theorem cloneNoCollect (one : w.OneThread t o rc alive) (held : 0 < rc.strong) :
    Yields Fault.Overflow (Follows · t o rc .clone alive) (w.cloneNoCollect t o) := by
  obtain ⟨ob, found, ⟨count, self⟩, _⟩ := one.handles
  have holds : 1 ≤ ob.strong t := by omega
  exact one.cloned held found
    (one.inv.cloneNoCollect found holds fun ob' found' _ => one.noCarry found')

theorem cloneShared (one : w.OneThread t o rc alive) (held : 0 < rc.strong) :
    Yields Fault.Overflow (Follows · t o rc .clone alive)
      (w.onObject o fun ob => ob.incrementStrongShared t) := by
  obtain ⟨ob, found, ⟨count, self⟩, _⟩ := one.handles
  have holds : 1 ≤ ob.strong t := by omega
  exact one.cloned held found (one.inv.cloneShared found holds (one.noCarry found))

theorem dropNoCollect (one : w.OneThread t o rc alive) (held : 0 < rc.strong) :
    Yields Fault.Overflow (Follows · t o rc .drop alive) (w.dropNoCollect t o) := by
  obtain ⟨ob, found, ⟨count, self⟩, weakCount, weakSelf⟩ := one.handles
  have holds : 1 ≤ ob.strong t := by omega
  have dropped := one.inv.dropNoCollect found holds (one.unqueued found)
  refine (dropped.weaken nofun).mono_eq fun w' returned steps => ?_
  have fewer := total_lower holds
  obtain ⟨rc', taken, strong, weak⟩ : ∃ rc', rc.next .drop = some rc' ∧
      rc'.strong + 1 = rc.strong ∧ rc'.weak = rc.weak := by
    simp only [Rc.next]
    split <;> grind
  refine ⟨rc', taken, one.touches steps.toTouches ?_ taken ?_⟩
  · intro id listed
    obtain ⟨ob', found', waits⟩ := (steps.inv.queue id o).mp listed
    have owner := steps.owner ob ob' found found' id waits.2.2
    rcases one.owner ob id found owner with owned | ⟨_, dead, _⟩
    · rw [dropNoCollect_queueOf found owner owned returned] at listed
      exact one.settled id listed
    · have live := steps.inv.liveId_of_listed listed
      rw [steps.liveId, dead] at live
      cases live
  · simp only [lower_self]
    omega

theorem downgrade (one : w.OneThread t o rc alive) (held : 0 < rc.strong) :
    Yields Fault.Overflow (Follows · t o rc .downgrade alive)
      (w.onObject o fun ob => ob.downgrade t) := by
  obtain ⟨ob, found, ⟨count, self⟩, weakCount, weakSelf⟩ := one.handles
  have holds : 1 ≤ ob.strong t := by omega
  have taken : rc.next .downgrade = some { rc with weak := rc.weak + 1 } := if_pos held
  apply one.onObject (one.inv.downgrade found holds) taken
  simp only [total_raise, raise_self]
  omega

theorem cloneWeak (one : w.OneThread t o rc alive) (held : 0 < rc.weak) :
    Yields Fault.Overflow (Follows · t o rc .cloneWeak alive)
      (w.onObject o fun ob => ob.cloneWeak t) := by
  obtain ⟨ob, found, ⟨count, self⟩, weakCount, weakSelf⟩ := one.handles
  have holds : 1 ≤ ob.weak t := by omega
  have taken : rc.next .cloneWeak = some { rc with weak := rc.weak + 1 } := if_pos held
  apply one.onObject (one.inv.cloneWeak found holds) taken
  simp only [total_raise, raise_self]
  omega

theorem dropWeak (one : w.OneThread t o rc alive) (held : 0 < rc.weak) :
    Yields Fault.Overflow (Follows · t o rc .dropWeak alive)
      (w.onObject o fun ob => .ok (ob.releaseWeak t)) := by
  obtain ⟨ob, found, ⟨count, self⟩, weakCount, weakSelf⟩ := one.handles
  have holds : 1 ≤ ob.weak t := by omega
  have fewer := total_lower holds
  have taken : rc.next .dropWeak = some { rc with weak := rc.weak - 1 } := if_pos held
  apply one.onObject ((one.inv.dropWeak found holds).weaken nofun) taken
  simp only [lower_self]
  omega

omit [DecidableEq Tid] [DecidableEq Oid] in
/-- The merged count is zero exactly when no handle is left. -/
theorem dead_iff (one : w.OneThread t o rc alive) (found : w.objects o = some ob) :
    (ob.header.shared.merged = true ∧ total ob.strong = 0) ↔ rc.strong = 0 := by
  rw [(one.counts found).1.1]
  constructor
  · exact And.right
  · intro dropped
    refine ⟨?_, dropped⟩
    by_contra notMerged
    obtain ⟨_, _, _, _, _, split⟩ := one.unmerged found (by simpa using notMerged)
    omega

theorem upgrade (one : w.OneThread t o rc alive) (held : 0 < rc.weak) :
    Yields Fault.Overflow (Follows · t o rc .upgrade alive)
      (w.onObject o fun ob => do
        return (← ob.incrementStrongUnlessZero t (w.shortId t)).1) := by
  obtain ⟨ob, found, ⟨count, self⟩, weakCount, weakSelf⟩ := one.handles
  have holds : 1 ≤ ob.weak t := by omega
  refine (one.inv.upgrade found holds).mono_eq fun w' returned ⟨succeeded, outcome, touches⟩ => ?_
  rw [one.dead_iff found] at outcome
  have settled : ∀ id, o ∉ w'.queueOf id := by
    rw [onObject_queueOf returned]
    exact one.settled
  cases succeeded with
  | true =>
      have live : 0 < rc.strong := Nat.pos_of_ne_zero (outcome.mp rfl)
      have taken : rc.next .upgrade = some { rc with strong := rc.strong + 1 } := by
        simp only [Rc.next, if_pos held, if_pos live]
      refine ⟨_, taken, one.touches touches settled taken ?_⟩
      simp only [total_raise, raise_self, if_true]
      omega
  | false =>
      have gone : ¬ 0 < rc.strong := by
        simp only [Bool.false_eq_true, false_iff, Decidable.not_not] at outcome
        omega
      have taken : rc.next .upgrade = some rc := by
        simp only [Rc.next, if_pos held, if_neg gone]
      exact ⟨_, taken, one.touches touches settled taken ⟨⟨count, self⟩, weakCount, weakSelf⟩⟩

omit [DecidableEq Tid] [DecidableEq Oid] in
theorem held_of_holdsStrong (one : w.OneThread t o rc alive) (holds : w.holdsStrong t o) :
    0 < rc.strong := by
  obtain ⟨ob, found, holds⟩ := holds
  have self := (one.counts found).1.2
  omega

omit [DecidableEq Tid] [DecidableEq Oid] in
theorem held_of_holdsWeak (one : w.OneThread t o rc alive) (holds : w.holdsWeak t o) :
    0 < rc.weak := by
  obtain ⟨ob, found, holds⟩ := holds
  have self := (one.counts found).2.2
  omega

/-- What one call does to the plain count. -/
theorem call (one : w.OneThread t o rc alive) {c : Call Tid Oid} (mine : c.isBy t o = true)
    (enabled : w.enabled c) :
    Yields Fault.Overflow
      (fun w' => ∃ rc', (match c.rcOp with | none => rc' = rc | some op => rc.next op = some rc') ∧
        w'.OneThread t o rc' (alive ∧ c ≠ .threadDeath t))
      (w.call c) := by
  have kept : ∀ {w' : World pw Tid Oid} {op}, c ≠ .threadDeath t → Follows w' t o rc op alive →
      ∃ rc', rc.next op = some rc' ∧ w'.OneThread t o rc' (alive ∧ c ≠ .threadDeath t) :=
    fun _ ⟨rc', taken, next⟩ => ⟨rc', taken, next.weaken And.left⟩
  cases c with
  | new | send | sendWeak => cases mine
  | clone t' o' panicking =>
      obtain ⟨rfl, rfl⟩ := Call.same_of_isBy mine
      have held := one.held_of_holdsStrong enabled
      refine (one.collect panicking).bind fun w' next => ?_
      exact (next.cloneNoCollect held).mono fun _ => kept nofun
  | drop t' o' panicking =>
      obtain ⟨rfl, rfl⟩ := Call.same_of_isBy mine
      have held := one.held_of_holdsStrong enabled
      refine (one.collect panicking).bind fun w' next => ?_
      exact (next.dropNoCollect held).mono fun _ => kept nofun
  | cloneNoCollect t' o' =>
      obtain ⟨rfl, rfl⟩ := Call.same_of_isBy mine
      exact (one.cloneNoCollect (one.held_of_holdsStrong enabled)).mono fun _ => kept nofun
  | cloneShared t' o' =>
      obtain ⟨rfl, rfl⟩ := Call.same_of_isBy mine
      exact (one.cloneShared (one.held_of_holdsStrong enabled)).mono fun _ => kept nofun
  | dropNoCollect t' o' =>
      obtain ⟨rfl, rfl⟩ := Call.same_of_isBy mine
      exact (one.dropNoCollect (one.held_of_holdsStrong enabled)).mono fun _ => kept nofun
  | upgrade t' o' =>
      obtain ⟨rfl, rfl⟩ := Call.same_of_isBy mine
      exact (one.upgrade (one.held_of_holdsWeak enabled)).mono fun _ => kept nofun
  | downgrade t' o' =>
      obtain ⟨rfl, rfl⟩ := Call.same_of_isBy mine
      exact (one.downgrade (one.held_of_holdsStrong enabled)).mono fun _ => kept nofun
  | cloneWeak t' o' =>
      obtain ⟨rfl, rfl⟩ := Call.same_of_isBy mine
      exact (one.cloneWeak (one.held_of_holdsWeak enabled)).mono fun _ => kept nofun
  | dropWeak t' o' =>
      obtain ⟨rfl, rfl⟩ := Call.same_of_isBy mine
      exact (one.dropWeak (one.held_of_holdsWeak enabled)).mono fun _ => kept nofun
  | collect t' panicking =>
      obtain rfl : t' = t := by simpa [Call.isBy] using mine
      exact (one.collect panicking).mono fun _ next => ⟨rc, rfl, next.weaken And.left⟩
  | collectForce t' =>
      obtain rfl : t' = t := by simpa [Call.isBy] using mine
      exact one.collectForce.mono fun _ next => ⟨rc, rfl, next.weaken And.left⟩
  | threadDeath t' =>
      obtain rfl : t' = t := by simpa [Call.isBy] using mine
      exact one.threadDeath.mono fun _ next => ⟨rc, rfl, next.weaken fun both => both.2 rfl⟩

omit [DecidableEq Tid] [DecidableEq Oid] in
theorem strongCount (one : w.OneThread t o rc alive) (found : w.objects o = some ob) :
    (∀ n, ob.strongCount (w.shortId t) = .ok n → n = rc.strong) ∧
      (alive → ob.strongCount (w.shortId t) = .ok rc.strong) := by
  have known {n : Nat} : ob.strongCount (w.shortId t) = .ok n ↔
      n = rc.strong ∧ (ob.header.shared.merged = true ∨ ob.header.biased.ownerId = w.shortId t) := by
    rw [← (one.counts found).1.1]
    exact (one.inv.object found).counts.strongCount_iff
  constructor
  · exact fun n returned => (known.mp returned).1
  · intro lives
    refine known.mpr ⟨rfl, ?_⟩
    cases isMerged : ob.header.shared.merged with
    | true => exact .inl rfl
    | false =>
        obtain ⟨id, owner, _⟩ := one.unmerged found isMerged
        rcases one.owner ob id found owner with owned | ⟨dead, _⟩
        · exact .inr (owner.trans owned.symm)
        · exact absurd lives dead

omit [DecidableEq Tid] [DecidableEq Oid] in
theorem object_destroyed (one : w.OneThread t o rc alive) (found : w.objects o = some ob) :
    ob.destroyed = rc.destroyed := by
  rw [(one.inv.object found).destroyed, one.destroyed]
  exact if_congr (one.dead_iff found) rfl rfl

omit [DecidableEq Tid] [DecidableEq Oid] in
theorem isUnique (one : w.OneThread t o rc alive) (found : w.objects o = some ob) :
    (ob.isUnique (w.shortId t) = true → rc.strong = 1 ∧ rc.weak = 0) ∧
      (alive → rc.strong = 1 ∧ rc.weak = 0 → ob.isUnique (w.shortId t) = true) := by
  obtain ⟨_, weakCount, _⟩ := one.counts found
  have accounted := (one.inv.object found).weakCount
  have destroyed := (one.object_destroyed found).trans one.destroyed
  obtain ⟨known, knownAlive⟩ := one.strongCount found
  have locked : ob.weakCount = 1 ↔ ob.weakCount.toNat = 1 := by
    rw [← BitVec.toNat_inj]
    rfl
  unfold Object.isUnique
  constructor
  · intro unique
    split at unique
    · cases unique
    · split at unique
      · rename_i lock
        have one' := known 1 (RawBrcHeader.isUnique_eq_true.mp unique)
        rw [locked] at lock
        rw [← one', if_neg (by omega)] at destroyed
        omega
      · cases unique
  · rintro lives ⟨single, noWeak⟩
    have possible : ob.header.biased.isDefinitelyNotUnique (w.shortId t) = false := by
      cases owner : ob.header.biased.ownerId with
      | none => simp [BiasedWord.isDefinitelyNotUnique, owner]
      | some id =>
          rcases one.owner ob id found owner with owned | ⟨dead, _⟩
          · simp [BiasedWord.isDefinitelyNotUnique, owner, owned]
          · exact absurd lives dead
    have lock : ob.weakCount = 1 := by
      rw [single, if_neg (by omega)] at destroyed
      rw [locked]
      omega
    rw [if_neg (by simp [possible]), if_pos lock, RawBrcHeader.isUnique_eq_true]
    exact single ▸ knownAlive lives

theorem refines (one : w.OneThread t o rc alive) : w.Refines t o rc alive where
  object := by
    obtain ⟨ob, found, ⟨count, _⟩, weakCount, _⟩ := one.handles
    have sound := one.inv.object found
    have destroyed := one.object_destroyed found
    refine ⟨ob, found, count, weakCount, destroyed, ?_⟩
    have accounted := sound.weakCount
    have once := one.destroyed
    unfold Rc.DestroyedWithLast at once
    rw [sound.freed]
    split at once <;> omega
  upgrade := by
    intro ob ob' succeeded found returned
    have sound := one.inv.object found
    have outcome := (sound.incrementStrongUnlessZero.of_ok returned).1
    rw [one.dead_iff found] at outcome
    rw [outcome]
    exact Nat.pos_iff_ne_zero.symm
  strongCount := fun ob n found => (one.strongCount found).1 n
  strongCountAlive := fun lives ob found => (one.strongCount found).2 lives
  isUnique := fun ob found => (one.isUnique found).1
  isUniqueAlive := fun lives ob found => (one.isUnique found).2 lives
  aborts := fun c fault mine enabled failed => (one.call mine enabled).of_error failed

end World.OneThread

variable [DecidableEq Tid] [DecidableEq Oid]

/-- The object that a thread has just created. -/
theorem WorldInv.oneThread {w : World pw Tid Oid} (inv : WorldInv w) {t : Tid} {o : Oid}
    (free : w.objects o = none) : (w.allocate t o).OneThread t o .new True := by
  obtain ⟨_, objects, current, _⟩ := inv.withCurrent (t := t)
  refine ⟨inv.allocate free,
    ⟨_, World.objects_setObject_self, ⟨total_raise_zero t, ?_⟩, total_zero, rfl⟩, ?_, ?_, rfl⟩
  · exact raise_self (fun _ => 0) t
  · intro id listed
    obtain ⟨ob, found, waits⟩ := ((inv.allocate free).queue id o).mp listed
    rw [World.allocate, World.objects_setObject_self, Option.some.injEq] at found
    exact Object.not_awaits_of_unqueued (found ▸ Object.new_unqueued t _) id waits
  · intro ob id found owned
    rw [World.allocate, World.objects_setObject_self, Option.some.injEq] at found
    rw [← found, Object.new_owner] at owned
    exact .inl (current.trans owned)

/-- Whatever one thread does with an object it created is what a plain reference count
    does, also after the thread's local state was destroyed. -/
theorem refines_rc {w₀ w w' : World pw Tid Oid} {t : Tid} {o : Oid} {panicking : Bool}
    (inv : WorldInv w₀) (free : w₀.objects o = none)
    (created : w₀.call (.new t o panicking) = .ok w) {labels : List (Call Tid Oid)}
    (run : Run ((calls pw Tid Oid).restrict fun _ c => c.isBy t o = true) w labels w') :
    ∃ rc, Run Rc.system .new (labels.filterMap Call.rcOp) rc ∧
      w'.Refines t o rc (.threadDeath t ∉ labels) := by
  have allocated : Yields Fault.Overflow (World.OneThread · t o .new True)
      (w₀.call (.new t o panicking)) :=
    (inv.collect panicking).bind fun w' collects =>
      collects.inv.oneThread (collects.drains.fresh free)
  have simulated : ∃ rc, Run Rc.system .new (labels.filterMap Call.rcOp) rc ∧
      w'.OneThread t o rc (.threadDeath t ∉ labels) := by
    refine run.simulation (R := fun labels w rc => w.OneThread t o rc (.threadDeath t ∉ labels)) ?_ ?_
    · exact (allocated.of_ok created).weaken fun _ => trivial
    · rintro labels w c w' rc one ⟨mine, step⟩
      obtain ⟨enabled, returned⟩ := calls_step.mp step
      obtain ⟨rc', follows, next⟩ := (one.call mine enabled).of_ok returned
      refine ⟨rc', ?_, next.weaken fun lives => ⟨?_, ?_⟩⟩
      · cases op : c.rcOp <;> rw [op] at follows <;> exact follows
      · exact fun died => lives (List.mem_append_left _ died)
      · exact fun same => lives (by simp [same])
  obtain ⟨rc, follows, one⟩ := simulated
  exact ⟨rc, follows, one.refines⟩

/-- A thread keeps using its object after its local state is gone, down to a failed upgrade. -/
theorem rc_outlives_thread_state :
    ∃ (w' : World .w64 (Fin 1) (Fin 1)) (rc : Rc),
      Run Rc.system .new [.clone, .downgrade, .drop, .drop, .upgrade] rc ∧
        w'.Refines 0 0 rc False := by
  let labels : List (Call (Fin 1) (Fin 1)) :=
    [.clone 0 0 false, .downgrade 0 0, .threadDeath 0, .drop 0 0 false, .drop 0 0 false, .upgrade 0 0]
  obtain ⟨w, created, w', ends, _⟩ : ∃ w ∈ (World.initial : World .w64 (Fin 1) (Fin 1)).next
      (.new 0 0 false), ∃ w' ∈ replay (guarded (fun _ (c : Call (Fin 1) (Fin 1)) =>
        c.isBy 0 0 = true) World.next) w labels, w'.objects 0 ≠ none := by
    decide +kernel
  obtain ⟨_, created⟩ := calls_step.mp created
  obtain ⟨rc, run, refines⟩ := refines_rc (.vacant 0 false) rfl created (.of_replay ends)
  exact ⟨w', rc, run, by simpa [labels] using refines⟩

end BiasedRc
