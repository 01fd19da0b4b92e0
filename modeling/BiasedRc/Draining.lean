import BiasedRc.Safety

/-! # Dropping every handle reclaims the value

An object that is not queued and has `n` handles is dropped `n` times, by any
threads and in any order, while its owner collects or dies at any point between.
The negative counts in between are what `Sunk` is for: while the object waits
its shared count stays below zero, so the owner cannot come to its last biased
reference and the merge cannot overflow.
-/

namespace BiasedRc

open Tally Outcome Transition System

variable {pw : PointerWidth} {Tid Oid : Type} [DecidableEq Tid] [DecidableEq Oid]

/-- A `decrement_strong`. -/
def Call.isDecrement : Call Tid Oid → Bool
  | .dropNoCollect _ _ => true
  | _ => false

/-- Decrements of `o` by threads that were handed a reference, and the owner's collections
    and death. -/
def Call.drains (owner : Tid) (o : Oid) : Call Tid Oid → Bool
  | .dropNoCollect _ o' | .send _ _ o' => o' = o
  | .collectForce t | .threadDeath t => t = owner
  | _ => false

def decrements (labels : List (Call Tid Oid)) : Nat := labels.countP Call.isDecrement

variable [Fintype Tid]

/-- An un-queued header with `n` handles, owned by nobody but `owner` while that thread lives. -/
structure World.DrainStart (w : World pw Tid Oid) (owner : Tid) (o : Oid) (n : Nat) : Prop where
  inv : WorldInv w
  handles : ∃ ob, w.objects o = some ob ∧ total ob.strong = n ∧ ob.header.shared.queued = false
  positive : 1 ≤ n
  owned : ∀ ob id t, w.objects o = some ob → ob.header.biased.ownerId = some id →
    w.shortId t = some id → t = owner
  idle : ∀ id, w.shortId owner = some id → w.queueOf id = []

/-- What holds after `dropped` of `n` handles have been dropped. -/
structure World.Drained (w : World pw Tid Oid) (owner : Tid) (o : Oid) (n dropped : Nat) : Prop where
  handles : ∃ ob, w.objects o = some ob ∧ total ob.strong + dropped = n
  /-- Destroyed at most once, and not before the last decrement. -/
  destroyed : ∀ ob, w.objects o = some ob → ob.destroyed ≤ 1 ∧ (dropped < n → ob.destroyed = 0)
  /-- No call fails, in particular no check of `explicit_merge`. -/
  returns : ∀ c, c.drains owner o = true → w.enabled c → ∃ w', w.call c = .ok w'
  /-- Destroyed at the last decrement if the header is merged or its owner dead by then. -/
  last : ∀ ob t w', dropped + 1 = n → w.objects o = some ob → w.holdsStrong t o →
    (ob.header.shared.merged = true ∨ ∀ id, ob.header.biased.ownerId = some id → w.liveId id = false) →
    w.call (.dropNoCollect t o) = .ok w' → ∃ ob', w'.objects o = some ob' ∧ ob'.destroyed = 1
  /-- Destroyed at the latest when the owner collects or dies. -/
  reclaimed : ∀ w', dropped = n →
    w.call (.collectForce owner) = .ok w' ∨ w.call (.threadDeath owner) = .ok w' →
      ∃ ob', w'.objects o = some ob' ∧ ob'.destroyed = 1

omit [DecidableEq Tid] in
theorem World.drainStart {w : World pw Tid Oid} (inv : WorldInv w) (free : ∀ o, w.objects o = none)
    {ob : Object pw Tid} (sound : ObjectInv ob) (unqueued : ob.header.shared.queued = false)
    (positive : 1 ≤ total ob.strong) {owner : Tid}
    (registered : ∀ id, ob.header.biased.ownerId = some id →
      (w.getById id).isSome ∧ ∀ t, w.shortId t = some id → t = owner) (o : Oid) :
    (w.setObject o ob).DrainStart owner o (total ob.strong) where
  inv := by
    refine inv.setObject sound ?_ fun id owned => (registered id owned).1
    intro id
    simp [free, Object.not_awaits_of_unqueued unqueued]
  handles := ⟨ob, World.objects_setObject_self, rfl, unqueued⟩
  positive := positive
  owned := by
    intro ob' id t found owner' owned
    rw [World.objects_setObject_self, Option.some.injEq] at found
    exact (registered id (found ▸ owner')).2 t owned
  idle := by
    intro id _
    rw [World.queueOf_setObject, List.eq_nil_iff_forall_not_mem]
    intro o' listed
    obtain ⟨ob', found, _⟩ := (inv.queue id o').mp listed
    rw [free] at found
    cases found

/-- Every un-queued header starts a drain, owned or merged, with its owner alive or dead. -/
theorem exists_drainStart (header : RawBrcHeader pw) (strong : Tid → Nat) (owner : Tid) (o : Oid)
    (alive : Bool) (unqueued : header.shared.queued = false) (positive : 1 ≤ total strong)
    (state : (header.shared.merged = false ∧ 0 ≤ header.shared.sharedCount.value ∧
        ∃ id, header.biased.ownerId = some id ∧ 1 ≤ header.biased.biasedCount.toNat ∧
          (header.biased.biasedCount.toNat : Int) + header.shared.sharedCount.value = total strong) ∨
      (header.shared.merged = true ∧ header.biased.ownerId = none ∧
        header.shared.sharedCount.value = total strong)) :
    ∃ w : World pw Tid Oid, w.DrainStart owner o (total strong) ∧
      (∃ ob, w.objects o = some ob ∧ ob.header = header ∧ ob.strong = strong) ∧
      ∀ id, header.biased.ownerId = some id → w.liveId id = alive := by
  let ob : Object pw Tid := ⟨header, 1, false, strong, fun _ => 0, 0, false, 0⟩
  have noWeak : total (fun _ : Tid => 0) = 0 := tally_const_zero rfl
  have counted : ob.Counted := by
    obtain ⟨unmerged, nonnegative, owned⟩ | ⟨merged, unowned, count⟩ := state
    · constructor <;> simp [ob, unmerged, unqueued, nonnegative, noWeak]
      simpa using owned
    · constructor <;> simp [ob, merged, unowned, count, noWeak]
  have sound : ObjectInv ob := counted.undestroyed rfl fun _ => by simp only [ob]; omega
  obtain ⟨unmerged, _, id, owned, _⟩ | ⟨merged, unowned, _⟩ := state
  · obtain ⟨w, inv, free, known, unique, live⟩ :
        ∃ w : World pw Tid Oid, WorldInv w ∧ (∀ o, w.objects o = none) ∧ (w.getById id).isSome ∧
          (∀ t, w.shortId t = some id → t = owner) ∧ w.liveId id = alive :=
      WorldInv.exists_registered owner id alive
    refine ⟨_, World.drainStart inv free sound unqueued positive ?_ o,
      ⟨ob, World.objects_setObject_self, rfl, rfl⟩, ?_⟩
    · intro id' owned'
      rw [show ob.header = header from rfl, owned, Option.some.injEq] at owned'
      exact owned' ▸ ⟨known, unique⟩
    · intro id' owned'
      rw [owned, Option.some.injEq] at owned'
      rw [World.liveId_setObject, ← owned', live]
  · refine ⟨_, World.drainStart (.vacant 0 false) (fun _ => rfl) sound unqueued positive ?_ o,
      ⟨ob, World.objects_setObject_self, rfl, rfl⟩, ?_⟩
    · intro id owned
      rw [show ob.header = header from rfl, unowned] at owned
      cases owned
    · intro id owned
      rw [unowned] at owned
      cases owned

/-- The invariant of a drain with this many handles left. -/
structure World.Draining (w : World pw Tid Oid) (owner : Tid) (o : Oid) (left : Nat) : Prop where
  inv : WorldInv w
  handles : ∃ ob, w.objects o = some ob ∧ total ob.strong = left ∧ ob.Sunk
  owned : ∀ ob id t, w.objects o = some ob → ob.header.biased.ownerId = some id →
    w.shortId t = some id → t = owner
  alone : ∀ id, w.shortId owner = some id → ∀ o' ∈ w.queueOf id, o' = o

namespace World.Draining

variable {w w' : World pw Tid Oid} {owner : Tid} {o : Oid} {left : Nat}

omit [DecidableEq Tid] [DecidableEq Oid] in
theorem of_start (start : w.DrainStart owner o left) : w.Draining owner o left where
  inv := start.inv
  handles := by
    obtain ⟨ob, found, count, unqueued⟩ := start.handles
    exact ⟨ob, found, count, Object.sunk_of_unqueued unqueued⟩
  owned := start.owned
  alone := by
    intro id owned o' listed
    rw [start.idle id owned] at listed
    cases listed

omit [DecidableEq Tid] [DecidableEq Oid] in
/-- Nothing in the owner's queue has had its count lifted. -/
theorem not_floats (draining : w.Draining owner o left) {id} (owned : w.shortId owner = some id) :
    ¬ w.Floats id := by
  rintro ⟨o', listed, ob, found, floats⟩
  obtain ⟨ob', found', _, sunk⟩ := draining.handles
  rw [draining.alone id owned o' listed, found', Option.some.injEq] at found
  exact floats (found ▸ sunk)

omit [DecidableEq Tid] in
/-- A decrement or a hand-over of the object. -/
theorem steps (draining : w.Draining owner o left) {strong weak} (steps : w.Steps o strong weak w') :
    w'.Draining owner o (total strong) where
  inv := steps.inv
  handles := by
    obtain ⟨ob, found, _, sunk⟩ := draining.handles
    obtain ⟨ob', found', rfl, _⟩ := steps.object
    exact ⟨ob', found', rfl, steps.sunk ob ob' found found' sunk⟩
  owned := by
    intro ob' id t found' owner' owned
    obtain ⟨ob, found, _⟩ := draining.handles
    rw [steps.shortId] at owned
    exact draining.owned ob id t found (steps.owner ob ob' found found' id owner') owned
  alone := by
    intro id owned o' listed
    by_contra other
    rw [steps.shortId] at owned
    rw [steps.inv.queue, steps.others o' other, ← draining.inv.queue] at listed
    exact other (draining.alone id owned o' listed)

omit [DecidableEq Oid] in
/-- The owner's queue has been processed, by a collection or at its death. -/
theorem emptied (draining : w.Draining owner o left) (inv : WorldInv w') (drains : w.Drains w')
    (others : ∀ t, t ≠ owner → w'.shortId t = w.shortId t)
    (empty : ∀ id, w'.shortId owner = some id → w'.queueOf id = []) :
    w'.Draining owner o left where
  inv := inv
  handles := by
    obtain ⟨ob, found, count, sunk⟩ := draining.handles
    obtain ⟨ob', found', drained⟩ := drains.object found
    exact ⟨ob', found', by rw [drained.strong, count], drained.sunk sunk⟩
  owned := by
    intro ob' id t found' owner' owned
    by_contra other
    obtain ⟨ob, found, _⟩ := draining.handles
    obtain ⟨ob'', found'', drained⟩ := drains.object found
    rw [found', Option.some.injEq] at found''
    subst found''
    rw [others t other] at owned
    obtain rfl | merged := drained.settled
    · exact other (draining.owned ob' id t found owner' owned)
    · rw [((inv.object found').released merged).1] at owner'
      cases owner'
  alone := by
    intro id owned o' listed
    rw [empty id owned] at listed
    cases listed

theorem dropNoCollect (draining : w.Draining owner o left) {t} (holds : w.holdsStrong t o) :
    ∃ w', w.call (.dropNoCollect t o) = .ok w' ∧
      ∃ strong weak, w.Steps o strong weak w' ∧ total strong + 1 = left := by
  obtain ⟨ob, found, holds⟩ := holds
  obtain ⟨ob', found', count, sunk⟩ := draining.handles
  rw [found, Option.some.injEq] at found'
  subst found'
  have sound := draining.inv.object found
  have dropped := draining.inv.dropNoCollect found holds
    (sound.unqueued_of_slow sunk (holds.trans (le_total ob.strong t)))
  obtain ⟨w', returned, steps⟩ := dropped.total
  exact ⟨w', returned, _, _, steps, by rw [total_lower holds, count]⟩

theorem send (draining : w.Draining owner o left) {source target}
    (holds : w.holdsStrong source o) :
    ∃ w', w.call (.send source target o) = .ok w' ∧ w'.Draining owner o left := by
  obtain ⟨ob, found, holds⟩ := holds
  obtain ⟨ob', found', count, _⟩ := draining.handles
  rw [found, Option.some.injEq] at found'
  subst found'
  obtain ⟨w', returned, steps⟩ := (draining.inv.send found target holds).total
  have same := draining.steps steps
  rw [total_raise, total_lower holds, count] at same
  exact ⟨w', returned, same⟩

theorem collectForce (draining : w.Draining owner o left) :
    ∃ w', w.call (.collectForce owner) = .ok w' ∧ w'.Draining owner o left ∧
      ∀ id, w'.shortId owner = some id → w'.queueOf id = [] := by
  have collected := draining.inv.collectForce (t := owner)
  obtain ⟨w', returned, collects, empty⟩ := (collected.weaken fun _ ⟨_, _, owned, floats⟩ =>
    draining.not_floats owned floats).total
  exact ⟨w', returned, draining.emptied collects.inv collects.drains collects.others empty, empty⟩

theorem threadDeath (draining : w.Draining owner o left) :
    ∃ w', w.call (.threadDeath owner) = .ok w' ∧ w'.Draining owner o left ∧
      ∀ id, w'.shortId owner = some id → w'.queueOf id = [] := by
  have died := draining.inv.threadDeath (t := owner)
  obtain ⟨w', returned, inv, drains, gone, others, _⟩ := (died.weaken fun _ ⟨_, _, owned, floats⟩ =>
    draining.not_floats owned floats).total
  have empty : ∀ id, w'.shortId owner = some id → w'.queueOf id = [] := by
    intro id owned
    rw [gone] at owned
    cases owned
  exact ⟨w', returned, draining.emptied inv drains others empty, empty⟩

omit [DecidableEq Tid] [DecidableEq Oid] in
/-- Without handles an unmerged header waits in the queue of its live owner. -/
theorem listed (draining : w.Draining owner o 0) {ob} (found : w.objects o = some ob)
    (unmerged : ob.header.shared.merged = false) :
    ∃ id, ob.header.biased.ownerId = some id ∧ o ∈ w.queueOf id ∧ w.liveId id = true ∧
      w.shortId owner = some id := by
  obtain ⟨ob', found', count, _⟩ := draining.handles
  rw [found, Option.some.injEq] at found'
  subst found'
  have sound := draining.inv.object found
  obtain ⟨id, owner', positive, split⟩ := sound.owned unmerged
  have queued : ob.header.shared.queued = true := by
    by_contra unqueued
    have := sound.unqueued unmerged (by simpa using unqueued)
    omega
  have listed : o ∈ w.queueOf id := (draining.inv.queue id o).mpr ⟨ob, found, unmerged, queued, owner'⟩
  have live := draining.inv.liveId_of_listed listed
  obtain ⟨t, owned⟩ := (draining.inv.active id).mp live
  have same := draining.owned ob id t found owner' owned
  exact ⟨id, owner', listed, live, same ▸ owned⟩

omit [DecidableEq Tid] [DecidableEq Oid] in
theorem destroyed_of_merged (draining : w.Draining owner o 0)
    (merged : ∀ ob, w.objects o = some ob → ob.header.shared.merged ≠ false) :
    ∃ ob, w.objects o = some ob ∧ ob.destroyed = 1 := by
  obtain ⟨ob, found, count, _⟩ := draining.handles
  refine ⟨ob, found, ?_⟩
  rw [(draining.inv.object found).destroyed, if_pos ⟨by simpa using merged ob found, count⟩]

/-- What one call does to the number of handles left. -/
theorem call (draining : w.Draining owner o left) {c : Call Tid Oid} (drains : c.drains owner o = true)
    (enabled : w.enabled c) :
    ∃ w', w.call c = .ok w' ∧ ∃ left', w'.Draining owner o left' ∧
      left' + (if c.isDecrement then 1 else 0) = left := by
  cases c with
  | dropNoCollect t o' =>
      obtain rfl : o' = o := by simpa [Call.drains] using drains
      obtain ⟨w', returned, strong, weak, steps, count⟩ := draining.dropNoCollect enabled
      exact ⟨w', returned, _, draining.steps steps, count⟩
  | send source target o' =>
      obtain rfl : o' = o := by simpa [Call.drains] using drains
      obtain ⟨w', returned, same⟩ := draining.send enabled
      exact ⟨w', returned, left, same, rfl⟩
  | collectForce t =>
      obtain rfl : t = owner := by simpa [Call.drains] using drains
      obtain ⟨w', returned, same, _⟩ := draining.collectForce
      exact ⟨w', returned, left, same, rfl⟩
  | threadDeath t =>
      obtain rfl : t = owner := by simpa [Call.drains] using drains
      obtain ⟨w', returned, same, _⟩ := draining.threadDeath
      exact ⟨w', returned, left, same, rfl⟩
  | _ => cases drains

theorem drained (draining : w.Draining owner o left) {n dropped} (count : left + dropped = n) :
    w.Drained owner o n dropped where
  handles := by
    obtain ⟨ob, found, handles, _⟩ := draining.handles
    exact ⟨ob, found, by omega⟩
  destroyed := by
    intro ob found
    obtain ⟨ob', found', handles, _⟩ := draining.handles
    rw [found, Option.some.injEq] at found'
    subst found'
    have sound := draining.inv.object found
    exact ⟨sound.destroyed_le_one, fun before => sound.held_undestroyed (by omega)⟩
  returns := by
    intro c drains enabled
    obtain ⟨w', returned, _⟩ := draining.call drains enabled
    exact ⟨w', returned⟩
  last := by
    intro ob t w' one found holds settled returned
    obtain ⟨w'', returned', strong, weak, steps, fewer⟩ := draining.dropNoCollect holds
    rw [returned, Except.ok.injEq] at returned'
    subst returned'
    have none : total strong = 0 := by omega
    have next := draining.steps steps
    rw [none] at next
    refine next.destroyed_of_merged fun ob' found' unmerged => ?_
    obtain ⟨id, owner', _, live, _⟩ := next.listed found' unmerged
    have before := steps.owner ob ob' found found' id owner'
    obtain merged | dead := settled
    · rw [((draining.inv.object found).released merged).1] at before
      cases before
    · rw [steps.liveId, dead id before] at live
      cases live
  reclaimed := by
    intro w' all called
    obtain rfl : left = 0 := by omega
    have emptied : w'.Draining owner o 0 ∧ ∀ id, w'.shortId owner = some id → w'.queueOf id = [] := by
      obtain collected | died := called
      · obtain ⟨w'', returned, next⟩ := draining.collectForce
        rw [collected, Except.ok.injEq] at returned
        exact returned ▸ next
      · obtain ⟨w'', returned, next⟩ := draining.threadDeath
        rw [died, Except.ok.injEq] at returned
        exact returned ▸ next
    refine emptied.1.destroyed_of_merged fun ob' found' unmerged => ?_
    obtain ⟨id, _, listed, _, owned⟩ := emptied.1.listed found' unmerged
    rw [emptied.2 id owned] at listed
    cases listed

end World.Draining

/-- Any order of `n` decrements with collections and the owner's death anywhere between them. -/
theorem drained_exactly_once {w w' : World pw Tid Oid} {owner : Tid} {o : Oid} {n : Nat}
    (start : w.DrainStart owner o n) {labels : List (Call Tid Oid)}
    (run : Run ((calls pw Tid Oid).restrict fun _ c => c.drains owner o = true) w labels w') :
    w'.Drained owner o n (decrements labels) := by
  have draining : ∃ left, w'.Draining owner o left ∧ left + decrements labels = n := by
    induction run with
    | nil => exact ⟨n, .of_start start, rfl⟩
    | @snoc labels mid c w' _ taken ih =>
        obtain ⟨left, draining, count⟩ := ih
        obtain ⟨drains, step⟩ := taken
        obtain ⟨enabled, returned⟩ := calls_step.mp step
        obtain ⟨w'', returned', left', next, fewer⟩ := draining.call drains enabled
        rw [returned, Except.ok.injEq] at returned'
        subst returned'
        refine ⟨left', next, ?_⟩
        rw [decrements, List.countP_append, List.countP_singleton, ← decrements]
        omega
  obtain ⟨left, draining, count⟩ := draining
  exact draining.drained count

/-- Thread 0 creates a value, thread 1 drops the last handle and thread 0 collects. -/
theorem drained_by_collection :
    ∃ w w' : World .w64 (Fin 2) (Fin 1), w.DrainStart 0 0 2 ∧ w'.Drained 0 0 2 2 ∧
      ∃ ob ∈ w'.objects 0, ob.destroyed = 1 := by
  have start : ((calls .w64 (Fin 2) (Fin 1)).restrict World.CallSafe).Reachable
      World.initial := .start rfl
  obtain ⟨w, reached, ⟨ob, found, handles⟩, owned, idle, ends⟩ := start.of_replay
    [.new 0 0 false, .clone 0 0 false, .send 0 1 0]
    (fun w => (∃ ob ∈ w.objects 0, total ob.strong = 2 ∧ ob.header.shared.queued = false) ∧
      (∀ ob ∈ w.objects 0, ∀ id ∈ ob.header.biased.ownerId, ∀ t, w.shortId t = some id → t = 0) ∧
      (∀ id ∈ w.shortId 0, w.queueOf id = []) ∧
      ∃ w' ∈ replay (guarded (fun _ (c : Call (Fin 2) (Fin 1)) => c.drains 0 0 = true) World.next) w
        [.dropNoCollect 0 0, .dropNoCollect 1 0, .collectForce 0],
          ∃ ob ∈ w'.objects 0, ob.destroyed = 1)
    (by decide +kernel)
  obtain ⟨w', ends, destroyed⟩ := ends
  have drains : w.DrainStart 0 0 2 :=
    ⟨.of_safe_run reached, ⟨ob, found, handles⟩, by decide,
      fun ob id t found owner' owned' => owned ob found id owner' t owned', idle⟩
  exact ⟨w, w', drains, drained_exactly_once drains (.of_replay ends), destroyed⟩

end BiasedRc
