import BiasedRc.World
import Mathlib.Tactic.DeriveFintype

/-! # Destructors that run other destructors

Destroying a value drops the handles stored in it, and each of these drops may
collect, merge and destroy in turn, inside the call that is still running. Here
the call stack of a thread is part of the state, and one step runs the innermost
call up to the next call that it makes. Other threads act between any two steps,
and so does the code of a destructor while it is the innermost call. Destructors
may panic.
-/

namespace BiasedRc

open Tally

/-- Where a handle is kept: by the code of a thread, or in the value of an object. -/
inductive Holder (Tid Oid : Type) where
  | thread (t : Tid)
  | value (o : Oid)
  deriving DecidableEq, Fintype

/-- A handle and the object it points to. -/
inductive Handle (Oid : Type) where
  | brc (o : Oid)
  | weak (o : Oid)
  deriving DecidableEq

/-- What is left of a call once its implicit collection has returned. -/
inductive Operation (Oid : Type) where
  | nothing
  | alloc
  | clone (o : Oid)
  | release (o : Oid)
  deriving DecidableEq

/-- A call that has not returned. -/
inductive Frame (Oid : Type) where
  /-- The drop of a handle, not yet begun. -/
  | drop (handle : Handle Oid)
  /-- `erased_dealloc`: `drop_in_place`, with the `WeakDropGuard` around it. -/
  | glue (o : Oid)
  /-- The implicit collection above runs under `abort_unwind`, then the operation follows. -/
  | resume (next : Operation Oid)
  /-- The loop of `collect_force`. -/
  | process (id : ShortThreadId)
  /-- `do_process` in the drop of the queue of a dying thread. -/
  | bury (id : ShortThreadId)
  /-- The `abort_unwind` of `queue_object`. -/
  | noUnwind
  /-- Where the panic that is unwinding ends. -/
  | caught
  /-- The panic that is unwinding reaches an `abort_unwind`. -/
  | aborts
  deriving DecidableEq

namespace Frame

variable {Oid : Type}

/-- The handle that a call owns or borrows until it returns. -/
def owes : Frame Oid → Option (Handle Oid)
  | .drop handle => some handle
  | .glue o => some (.weak o)
  | .resume (.clone o) | .resume (.release o) => some (.brc o)
  | _ => none

/-- While this is the innermost call user code runs: the destructor of a value, or those of
    the variables that a panic drops. -/
def isCode : Frame Oid → Bool
  | .glue _ | .caught => true
  | _ => false

/-- The call goes on by itself: no allocation is awaited, and the process is not aborting. -/
def canStep : Frame Oid → Bool
  | .resume .alloc | .aborts => false
  | _ => true

/-- Unwinding from the innermost call. Drops of fields and weak guards still run; a loop
    over a queue ends; an `abort_unwind`, or a destructor of a thread local, aborts. -/
def unwind : List (Frame Oid) → List (Frame Oid)
  | [] => [.caught]
  | .drop handle :: rest => .drop handle :: unwind rest
  | .glue o :: rest => .glue o :: unwind rest
  | .process _ :: rest => unwind rest
  | .caught :: rest => .caught :: rest
  | .resume _ :: _ | .bury _ :: _ | .noUnwind :: _ | .aborts :: _ => [.aborts]

end Frame

/-- What a decrement leaves to its caller. -/
inductive Released where
  | kept
  | dead
  | won
  deriving DecidableEq

namespace Object

variable {pw : PointerWidth} {Tid : Type} [DecidableEq Tid]

/-- `explicit_merge` up to its last branch; `true` when the value is to be destroyed. -/
def mergeCounts (ob : Object pw Tid) (biasedTid : ShortThreadId) :
    Except Fault (Object pw Tid × Bool) :=
  if ob.header.biased.ownerId ≠ some biasedTid then .error .explicitMergeBadId
  else do
    let new ← ob.header.shared.mergedWith ob.header.biased.biasedCount
    let merged := { ob with header := (ob.header.storeShared new).storeBiased .unowned }
    if new.sharedCount.value < 0 then .error .negativeRefcntMerge
    else .ok (merged, decide (new.sharedCount.value = 0))

/-- `decrement_biased_slow`. -/
def releaseBiasedSlow (ob : Object pw Tid) (t : Tid) : Object pw Tid × Released :=
  ({ ob with
      header := ob.header.fetchOrMerged.storeBiased .unowned
      strong := lower ob.strong t },
    if ob.header.shared.sharedCount.value = 0 then .dead else .kept)

/-- `decrement_shared` up to its last branch. -/
def releaseShared (ob : Object pw Tid) (t : Tid) : Except Fault (Object pw Tid × Released) := do
  let new ← ob.header.shared.decremented
  let stored := { ob with header := ob.header.storeShared new, strong := lower ob.strong t }
  if ob.header.shared.wonQueue new then .ok (stored, .won)
  else if new.isDead then .ok (stored, .dead)
  else .ok (stored, .kept)

/-- `decrement_strong`. -/
def releaseStrong (ob : Object pw Tid) (t : Tid) (thisId : Option ShortThreadId) :
    Except Fault (Object pw Tid × Released) :=
  match ob.header.biased.decrementBiased thisId with
  | .store new =>
      .ok ({ ob with header := ob.header.storeBiased new, strong := lower ob.strong t }, .kept)
  | .slow => .ok (ob.releaseBiasedSlow t)
  | .notOwner => ob.releaseShared t

variable [Fintype Tid]

/-- The value is being destroyed; the weak reference that all strong references share
    is held by the guard of the call that does it. -/
def beginDealloc (ob : Object pw Tid) (t : Tid) : Object pw Tid :=
  { ob with
    destroyed := ob.destroyed + 1
    premature := ob.premature || decide (∃ t, 0 < ob.strong t)
    weak := raise ob.weak t }

/-- Without fields to drop, `dealloc` is the start of the destructor and its guard. -/
theorem releaseWeak_beginDealloc (ob : Object pw Tid) (t : Tid) :
    (ob.beginDealloc t).releaseWeak t = ob.dealloc := by
  have weak : lower (raise ob.weak t) t = ob.weak := by
    funext t'
    by_cases same : t' = t
    · rw [same, lower_self, raise_self, Nat.add_sub_cancel]
    · rw [lower_of_ne _ same, raise_of_ne _ same]
  simp only [releaseWeak, beginDealloc, dealloc, dropWeak, weak]

omit [DecidableEq Tid] in
theorem explicitMerge_eq (ob : Object pw Tid) (id : ShortThreadId) :
    ob.explicitMerge id = (ob.mergeCounts id).map fun result =>
      if result.2 then result.1.dealloc else result.1 := by
  simp only [explicitMerge, mergeCounts]
  split
  · rfl
  · cases ob.header.shared.mergedWith ob.header.biased.biasedCount with
    | error fault => rfl
    | ok new =>
        simp only [bind, Except.bind]
        split
        · rfl
        · split <;> simp_all [Except.map]

theorem decrementStrong_eq (ob : Object pw Tid) (t : Tid) (thisId : Option ShortThreadId) :
    ob.decrementStrong t thisId = (ob.releaseStrong t thisId).map fun result =>
      match result.2 with
      | .kept => (result.1, false)
      | .dead => (result.1.dealloc, false)
      | .won => (result.1, true) := by
  simp only [decrementStrong, releaseStrong]
  cases ob.header.biased.decrementBiased thisId with
  | store new => rfl
  | slow =>
      simp only [decrementBiasedSlow, releaseBiasedSlow, Except.map]
      split <;> rfl
  | notOwner =>
      simp only [decrementShared, releaseShared]
      cases ob.header.shared.decremented with
      | error fault => rfl
      | ok new =>
          simp only [bind, Except.bind]
          split
          · rfl
          · split <;> rfl

end Object

namespace World

variable {pw : PointerWidth} {Tid Oid : Type} [DecidableEq Tid] [DecidableEq Oid]

/-- How many such handles this holder keeps. -/
def held (w : World pw Tid Oid) (handle : Handle Oid) (t : Tid) : Nat :=
  match handle with
  | .brc o => ((w.objects o).map (·.strong t)).getD 0
  | .weak o => ((w.objects o).map (·.weak t)).getD 0

/-- A handle moves from one holder to another. -/
def handOver (w : World pw Tid Oid) (source target : Tid) : Handle Oid → World pw Tid Oid
  | .brc o =>
      match w.objects o with
      | none => w
      | some ob => w.setObject o { ob with strong := raise (lower ob.strong source) target }
  | .weak o =>
      match w.objects o with
      | none => w
      | some ob => w.setObject o { ob with weak := raise (lower ob.weak source) target }

/-- `LocalThreadState::collect_force` up to its loop. -/
def processFrames (w : World pw Tid Oid) (id : ShortThreadId) : List (Frame Oid) :=
  match w.getById id with
  | none => []
  | some info =>
      if info.stateFlag.isLive && info.queuedObjects.isSome then [.process id] else []

/-- `collect_force()` up to its loop. -/
def startCollectForce (w : World pw Tid Oid) (t : Tid) : World pw Tid Oid × List (Frame Oid) :=
  match (w.withCurrent t).2 with
  | none => ((w.withCurrent t).1, [])
  | some id => ((w.withCurrent t).1, (w.withCurrent t).1.processFrames id)

/-- `collect()`, or an implicit collection, up to its loop. -/
def startCollect (w : World pw Tid Oid) (t : Tid) (panicking : Bool) :
    World pw Tid Oid × List (Frame Oid) :=
  if w.currentlyNeedsCollect t then
    match (w.withCurrent t).2 with
    | none => ((w.withCurrent t).1, [])
    | some id =>
        if panicking then ((w.withCurrent t).1, [])
        else if (w.withCurrent t).1.currentlyNeedsCollect t then
          ((w.withCurrent t).1, (w.withCurrent t).1.processFrames id)
        else ((w.withCurrent t).1, [])
  else (w, [])

end World

/-- The process between two steps of its threads. -/
structure Process (pw : PointerWidth) (Tid Oid : Type) where
  world : World pw (Holder Tid Oid) Oid
  /-- What is left in the queues that are being dropped. -/
  orphaned : ShortThreadId → List Oid
  /-- The handles stored in each value. -/
  fields : Oid → List (Handle Oid)
  stack : Tid → List (Frame Oid)
  /-- `std::thread::panicking()`. -/
  panicking : Tid → Bool

/-- What the code of a thread or of a destructor can do, and `step` for the calls it made. -/
inductive Action (Tid Oid : Type) where
  | new (t : Tid)
  /-- The allocator gives this address to the constructor that waits for one. -/
  | allocate (t : Tid) (o : Oid)
  | clone (t : Tid) (o : Oid)
  | cloneNoCollect (t : Tid) (o : Oid)
  | cloneShared (t : Tid) (o : Oid)
  | drop (t : Tid) (handle : Handle Oid)
  | dropNoCollect (t : Tid) (o : Oid)
  | upgrade (t : Tid) (o : Oid)
  | downgrade (t : Tid) (o : Oid)
  | cloneWeak (t : Tid) (o : Oid)
  | collect (t : Tid)
  | collectNounwind (t : Tid)
  | collectForce (t : Tid)
  /-- Store a handle in the value of an object, or take one out. A handle in a value is
      used by taking it out and putting it back. -/
  | put (t : Tid) (o : Oid) (handle : Handle Oid)
  | take (t : Tid) (o : Oid) (handle : Handle Oid)
  | send (source target : Tid) (handle : Handle Oid)
  | panic (t : Tid)
  | exit (t : Tid)
  | step (t : Tid)
  deriving DecidableEq

/-- Actions that no code takes: calls that are running go on. -/
def Action.internal {Tid Oid : Type} : Action Tid Oid → Bool
  | .step _ | .allocate _ _ => true
  | _ => false

namespace Process

variable {pw : PointerWidth} {Tid Oid : Type} [DecidableEq Tid]

/-- No thread has run yet. -/
def initial : Process pw Tid Oid where
  world := .initial
  orphaned := fun _ => []
  fields := fun _ => []
  stack := fun _ => []
  panicking := fun _ => false

def setWorld (s : Process pw Tid Oid) (w : World pw (Holder Tid Oid) Oid) : Process pw Tid Oid :=
  { s with world := w }

def setObject [DecidableEq Oid] (s : Process pw Tid Oid) (o : Oid)
    (ob : Object pw (Holder Tid Oid)) : Process pw Tid Oid := s.setWorld (s.world.setObject o ob)

def setStack (s : Process pw Tid Oid) (t : Tid) (frames : List (Frame Oid)) : Process pw Tid Oid :=
  { s with stack := Function.update s.stack t frames }

def push (s : Process pw Tid Oid) (t : Tid) (frames : List (Frame Oid)) : Process pw Tid Oid :=
  s.setStack t (frames ++ s.stack t)

def setFields [DecidableEq Oid] (s : Process pw Tid Oid) (o : Oid) (handles : List (Handle Oid)) :
    Process pw Tid Oid := { s with fields := Function.update s.fields o handles }

def setOrphaned (s : Process pw Tid Oid) (id : ShortThreadId) (queue : List Oid) :
    Process pw Tid Oid := { s with orphaned := Function.update s.orphaned id queue }

section Updates

variable {s : Process pw Tid Oid} {t : Tid} {frames : List (Frame Oid)}

@[simp] theorem world_setStack : (s.setStack t frames).world = s.world := rfl

@[simp] theorem stack_setStack_self : (s.setStack t frames).stack t = frames :=
  Function.update_self ..

theorem stack_setStack_of_ne {t'} (other : t' ≠ t) : (s.setStack t frames).stack t' = s.stack t' :=
  Function.update_of_ne other ..

@[simp] theorem world_push : (s.push t frames).world = s.world := rfl

@[simp] theorem stack_push_self : (s.push t frames).stack t = frames ++ s.stack t :=
  Function.update_self ..

theorem stack_push_of_ne {t'} (other : t' ≠ t) : (s.push t frames).stack t' = s.stack t' :=
  Function.update_of_ne other ..

section

omit [DecidableEq Tid]

@[simp] theorem fields_setFields_self [DecidableEq Oid] {o : Oid} {handles} :
    (s.setFields o handles).fields o = handles :=
  Function.update_self ..

theorem fields_setFields_of_ne [DecidableEq Oid] {o o' : Oid} {handles} (other : o' ≠ o) :
    (s.setFields o handles).fields o' = s.fields o' := Function.update_of_ne other ..

@[simp] theorem orphaned_setOrphaned_self {id queue} : (s.setOrphaned id queue).orphaned id = queue :=
  Function.update_self ..

theorem orphaned_setOrphaned_of_ne {id id' queue} (other : id' ≠ id) :
    (s.setOrphaned id queue).orphaned id' = s.orphaned id' := Function.update_of_ne other ..

end

theorem push_nil : s.push t [] = s := by
  rw [push, setStack, List.nil_append, Function.update_eq_self]

theorem mem_stack_push {t' frame} (running : frame ∈ s.stack t') :
    frame ∈ (s.push t frames).stack t' := by
  by_cases same : t' = t
  · rw [same] at running ⊢
    rw [stack_push_self]
    exact List.mem_append_right frames running
  · rwa [stack_push_of_ne same]

end Updates

variable [DecidableEq Oid]

/-- The handles that calls of this thread still own or borrow. -/
def reserved (s : Process pw Tid Oid) (t : Tid) (handle : Handle Oid) : Nat :=
  (s.stack t).countP fun frame => frame.owes = some handle

theorem reserved_push_self {s : Process pw Tid Oid} {t : Tid} {frames : List (Frame Oid)} {handle} :
    (s.push t frames).reserved t handle =
      (frames.countP fun frame => frame.owes = some handle) + s.reserved t handle := by
  rw [reserved, stack_push_self, List.countP_append, reserved]

omit [DecidableEq Tid] in
theorem reserved_of_stack {s s' : Process pw Tid Oid} {t : Tid} (same : s'.stack t = s.stack t)
    (handle : Handle Oid) : s'.reserved t handle = s.reserved t handle := by
  rw [reserved, same, reserved]

/-- The code of the thread has such a handle that no call of it is using. -/
def has (s : Process pw Tid Oid) (t : Tid) (handle : Handle Oid) : Prop :=
  s.reserved t handle < s.world.held handle (.thread t)

/-- User code of the thread is running, no call of this library. -/
def runsCode (s : Process pw Tid Oid) (t : Tid) : Prop :=
  (s.stack t).head?.all Frame.isCode = true

/-- The code that runs can reach the value of `o`. -/
def reaches (s : Process pw Tid Oid) (t : Tid) (o : Oid) : Prop :=
  s.has t (.brc o) ∨ (s.stack t).head? = some (.glue o)

instance (s : Process pw Tid Oid) (t : Tid) (handle : Handle Oid) : Decidable (s.has t handle) :=
  inferInstanceAs (Decidable (_ < _))

instance (s : Process pw Tid Oid) (t : Tid) : Decidable (s.runsCode t) :=
  inferInstanceAs (Decidable (_ = _))

instance (s : Process pw Tid Oid) (t : Tid) (o : Oid) : Decidable (s.reaches t o) :=
  inferInstanceAs (Decidable (_ ∨ _))

def enabled (s : Process pw Tid Oid) : Action Tid Oid → Prop
  | .new t => s.runsCode t
  | .allocate t o => (s.stack t).head? = some (.resume .alloc) ∧ s.world.objects o = none
  | .clone t o | .cloneNoCollect t o | .cloneShared t o | .dropNoCollect t o | .downgrade t o =>
      s.runsCode t ∧ s.has t (.brc o)
  | .upgrade t o | .cloneWeak t o => s.runsCode t ∧ s.has t (.weak o)
  | .drop t handle | .send t _ handle => s.runsCode t ∧ s.has t handle
  | .collect t | .collectNounwind t | .collectForce t => s.runsCode t
  | .put t o handle => s.runsCode t ∧ s.reaches t o ∧ s.has t handle
  | .take t o handle => s.runsCode t ∧ s.reaches t o ∧ handle ∈ s.fields o
  | .panic t => s.runsCode t ∧ s.panicking t = false
  | .exit t => s.stack t = [] ∧ s.panicking t = false
  | .step t => (s.stack t).head?.any Frame.canStep = true

instance (s : Process pw Tid Oid) (a : Action Tid Oid) : Decidable (s.enabled a) :=
  match a with
  | .allocate t o =>
      decidable_of_iff ((s.stack t).head? = some (.resume .alloc) ∧ (s.world.objects o).isNone = true)
        (by simp [enabled])
  | .clone t o | .cloneNoCollect t o | .cloneShared t o | .dropNoCollect t o | .downgrade t o =>
      inferInstanceAs (Decidable (s.runsCode t ∧ s.has t (.brc o)))
  | .upgrade t o | .cloneWeak t o => inferInstanceAs (Decidable (s.runsCode t ∧ s.has t (.weak o)))
  | .drop t handle | .send t _ handle => inferInstanceAs (Decidable (s.runsCode t ∧ s.has t handle))
  | .new t | .collect t | .collectNounwind t | .collectForce t =>
      inferInstanceAs (Decidable (s.runsCode t))
  | .put t o handle => inferInstanceAs (Decidable (s.runsCode t ∧ s.reaches t o ∧ s.has t handle))
  | .take t o handle =>
      inferInstanceAs (Decidable (s.runsCode t ∧ s.reaches t o ∧ handle ∈ s.fields o))
  | .panic t => inferInstanceAs (Decidable (s.runsCode t ∧ s.panicking t = false))
  | .exit t => inferInstanceAs (Decidable (s.stack t = [] ∧ s.panicking t = false))
  | .step t => inferInstanceAs (Decidable (_ = _))

/-- An operation of one header through a handle. -/
def onObject (s : Process pw Tid Oid) (o : Oid)
    (op : Object pw (Holder Tid Oid) → Except Fault (Object pw (Holder Tid Oid))) :
    Except Fault (Process pw Tid Oid) :=
  return s.setWorld (← s.world.onObject o op)

/-- An implicit collection and the operation after it. -/
def collectThen (s : Process pw Tid Oid) (t : Tid) (next : Operation Oid) : Process pw Tid Oid :=
  let (w, frames) := s.world.startCollect (.thread t) (s.panicking t)
  (s.setWorld w).push t (frames ++ [.resume next])

variable [Fintype Tid] [Fintype Oid]

/-- `DropInfo::dealloc`. -/
def destroy (s : Process pw Tid Oid) (t : Tid) (o : Oid) (ob : Object pw (Holder Tid Oid)) :
    Process pw Tid Oid := (s.setObject o (ob.beginDealloc (.thread t))).push t [.glue o]

/-- `explicit_merge`. -/
def explicitMerge (s : Process pw Tid Oid) (t : Tid) (biasedTid : ShortThreadId) (o : Oid) :
    Except Fault (Process pw Tid Oid) := do
  let ob ← s.world.deref o
  let (ob', dead) ← ob.mergeCounts biasedTid
  return if dead then s.destroy t o ob' else s.setObject o ob'

/-- `decrement_shared_do_queue`. -/
def decrementSharedDoQueue (s : Process pw Tid Oid) (t : Tid) (o : Oid)
    (ob : Object pw (Holder Tid Oid)) : Except Fault (Process pw Tid Oid) :=
  match ob.header.biased.ownerId with
  | none => .error .negativeRefcntNoOwner
  | some owner =>
      match s.world.getById owner with
      | none => .error .ownerUndefinedState
      | some info =>
          match info.queuedObjects with
          | some queue =>
              .ok (s.setWorld ((s.world.setObject o { ob with pushed := ob.pushed + 1 }).setInfo owner
                ⟨info.stateFlag.markQueued, some (queue ++ [o])⟩))
          | none =>
              if info.stateFlag.isLive then .error .liveWithoutQueue
              else ((s.setObject o ob).push t [.noUnwind]).explicitMerge t owner o

/-- `drop_no_collect_in_place`. -/
def release (s : Process pw Tid Oid) (t : Tid) (o : Oid) : Except Fault (Process pw Tid Oid) := do
  let ob ← s.world.deref o
  let (ob', released) ← ob.releaseStrong (.thread t) (s.world.shortId (.thread t))
  match released with
  | .kept => .ok (s.setObject o ob')
  | .dead => .ok (s.destroy t o ob')
  | .won => s.decrementSharedDoQueue t o ob'

/-- What follows an implicit collection. -/
def operate (s : Process pw Tid Oid) (t : Tid) : Operation Oid → Except Fault (Process pw Tid Oid)
  | .nothing | .alloc => .ok s
  | .clone o => s.onObject o fun ob => ob.incrementStrong (.thread t) (s.world.shortId (.thread t))
  | .release o => s.release t o

/-- One round of `do_process`, or the end of `collect_force` when the queue is empty. -/
def processNext (s : Process pw Tid Oid) (t : Tid) (id : ShortThreadId) (rest : List (Frame Oid)) :
    Except Fault (Process pw Tid Oid) :=
  match s.world.getById id with
  | none => .ok (s.setStack t rest)
  | some info =>
      match info.queuedObjects with
      | none => .ok (s.setStack t rest)
      | some [] =>
          .ok ((s.setWorld (s.world.setInfo id ⟨info.stateFlag.markLive, some []⟩)).setStack t rest)
      | some (o :: queue) =>
          (s.setWorld (s.world.setInfo id ⟨info.stateFlag, some queue⟩)).explicitMerge t id o

/-- One round of `do_process` on a queue that is dropped. The thread is dead at its end. -/
def buryNext (s : Process pw Tid Oid) (t : Tid) (id : ShortThreadId) (rest : List (Frame Oid)) :
    Except Fault (Process pw Tid Oid) :=
  match s.orphaned id with
  | [] => .ok ((s.setWorld (s.world.setInfo id ⟨.dead, none⟩)).setStack t rest)
  | o :: queue => (s.setOrphaned id queue).explicitMerge t id o

/-- Run the innermost call of a thread up to the next call that it makes. -/
def step (s : Process pw Tid Oid) (t : Tid) : Except Fault (Process pw Tid Oid) :=
  match s.stack t with
  | [] | .aborts :: _ => .ok s
  | .drop (.brc o) :: rest => .ok ((s.setStack t rest).collectThen t (.release o))
  | .drop (.weak o) :: rest =>
      (s.setStack t rest).onObject o fun ob => .ok (ob.releaseWeak (.thread t))
  | .glue o :: rest =>
      match s.fields o with
      | [] => (s.setStack t rest).onObject o fun ob => .ok (ob.releaseWeak (.thread t))
      | handle :: others =>
          .ok (((s.setFields o others).setWorld
            (s.world.handOver (.value o) (.thread t) handle)).push t [.drop handle])
  | .resume next :: rest => (s.setStack t rest).operate t next
  | .process id :: rest => s.processNext t id rest
  | .bury id :: rest => s.buryNext t id rest
  | .noUnwind :: rest => .ok (s.setStack t rest)
  | .caught :: rest =>
      .ok { s.setStack t rest with panicking := Function.update s.panicking t false }

/-- `Drop for LocalThreadState` up to the drop of the queue. -/
def exit (s : Process pw Tid Oid) (t : Tid) : Process pw Tid Oid :=
  match s.world.shortId (.thread t) with
  | none => s
  | some id =>
      match s.world.getById id with
      | none => s.setWorld (s.world.setFast (.thread t) ⟨.deadOrDying, none⟩)
      | some info =>
          ((s.setWorld ((s.world.setFast (.thread t) ⟨.deadOrDying, none⟩).setInfo id ⟨.dying, none⟩)
            ).setOrphaned id (info.queuedObjects.getD [])).push t [.bury id]

def act (s : Process pw Tid Oid) : Action Tid Oid → Except Fault (Process pw Tid Oid)
  | .new t => .ok (s.collectThen t .alloc)
  | .allocate t o =>
      .ok ((s.setWorld (s.world.allocate (.thread t) o)).setStack t (s.stack t).tail)
  | .clone t o => .ok (s.collectThen t (.clone o))
  | .cloneNoCollect t o => s.operate t (.clone o)
  | .cloneShared t o => s.onObject o fun ob => ob.incrementStrongShared (.thread t)
  | .drop t handle => .ok (s.push t [.drop handle])
  | .dropNoCollect t o => .ok (s.push t [.resume (.release o)])
  | .upgrade t o => s.onObject o fun ob => do
      return (← ob.incrementStrongUnlessZero (.thread t) (s.world.shortId (.thread t))).1
  | .downgrade t o => s.onObject o fun ob => ob.downgrade (.thread t)
  | .cloneWeak t o => s.onObject o fun ob => ob.cloneWeak (.thread t)
  | .collect t =>
      let (w, frames) := s.world.startCollect (.thread t) (s.panicking t)
      .ok ((s.setWorld w).push t frames)
  | .collectNounwind t => .ok (s.collectThen t .nothing)
  | .collectForce t =>
      let (w, frames) := s.world.startCollectForce (.thread t)
      .ok ((s.setWorld w).push t frames)
  | .put t o handle =>
      .ok ((s.setFields o (s.fields o ++ [handle])).setWorld
        (s.world.handOver (.thread t) (.value o) handle))
  | .take t o handle =>
      .ok ((s.setFields o ((s.fields o).erase handle)).setWorld
        (s.world.handOver (.value o) (.thread t) handle))
  | .send source target handle =>
      .ok (s.setWorld (s.world.handOver (.thread source) (.thread target) handle))
  | .panic t =>
      .ok { s.setStack t (Frame.unwind (s.stack t)) with
        panicking := Function.update s.panicking t true }
  | .exit t => .ok (s.exit t)
  | .step t => s.step t

/-- Enabled actions that return. -/
def next (s : Process pw Tid Oid) (a : Action Tid Oid) : Option (Process pw Tid Oid) :=
  if s.enabled a then (s.act a).toOption else none

end Process

/-- All runs of the process, its threads interleaved between any two steps. -/
def processes (pw : PointerWidth) (Tid Oid : Type) [DecidableEq Tid] [DecidableEq Oid] [Fintype Tid]
    [Fintype Oid] : Transition.System (Process pw Tid Oid) (Action Tid Oid) :=
  .ofNext (fun s => s = .initial) Process.next

theorem processes_step {pw : PointerWidth} {Tid Oid : Type} [DecidableEq Tid] [DecidableEq Oid]
    [Fintype Tid] [Fintype Oid] {s s' : Process pw Tid Oid} {a : Action Tid Oid} :
    (processes pw Tid Oid).step s a s' ↔ s.enabled a ∧ s.act a = .ok s' := by
  simp only [processes, Transition.System.ofNext, Process.next]
  split
  · rename_i enabled
    cases s.act a <;> simp [enabled, Except.toOption]
  · rename_i disabled
    simp [disabled]

end BiasedRc
