import BiasedRc.Header
import BiasedRc.Lib.Tally
import BiasedRc.Lib.Transition

/-! # Threads, queues and objects under uninterrupted calls

One call of the public interface is one step here, so each definition is the
source function run to its end. The state holds the thread registry, the merge
queues and every object with its two header words and its weak count. Next to
what memory holds it counts what the claims speak of: the strong and weak
handles of each thread, how often a value was destroyed and how often an object
was pushed to a queue.
-/

namespace BiasedRc

open Tally

inductive ThreadStateFlag where
  | live
  | queuedObjects
  | dying
  | dead
  deriving DecidableEq, Repr

def ThreadStateFlag.isLive : ThreadStateFlag → Bool
  | .live | .queuedObjects => true
  | .dying | .dead => false

/-- `compare_exchange(Live, QueuedObjects)`, its result ignored. -/
def ThreadStateFlag.markQueued (flag : ThreadStateFlag) : ThreadStateFlag :=
  if flag = .live then .queuedObjects else flag

/-- `compare_exchange(QueuedObjects, Live)`, its result ignored. -/
def ThreadStateFlag.markLive (flag : ThreadStateFlag) : ThreadStateFlag :=
  if flag = .queuedObjects then .live else flag

/-- `SharedThreadInfo`. The weak reference to the queue is `none` once the queue
    has been dropped. -/
structure SharedThreadInfo (Oid : Type) where
  stateFlag : ThreadStateFlag
  queuedObjects : Option (List Oid)

inductive LocalThreadStatus where
  | deadOrDying
  | uninit
  | active
  deriving DecidableEq, Repr

structure LocalThreadStateFast where
  status : LocalThreadStatus
  shortId : Option ShortThreadId
  deriving DecidableEq

/-- `existing_short_id().ok()`. -/
def LocalThreadStateFast.existingShortId (fast : LocalThreadStateFast) : Option ShortThreadId :=
  match fast.status with
  | .active => fast.shortId
  | .uninit | .deadOrDying => none

/-- `ShortThreadId::try_from(UniqueThreadId::from_index(index))`. -/
def ShortThreadId.ofIndex (index : Nat) : Option ShortThreadId :=
  if h : index + 1 ≤ 4095 then
    some ⟨BitVec.ofNat 12 (index + 1), fun zero => by
      have := congrArg BitVec.toNat zero
      simp only [BitVec.ofNat_eq_ofNat, BitVec.toNat_ofNat] at this
      omega⟩
  else none

theorem ShortThreadId.index_ofIndex {i : Nat} {id} (h : ofIndex i = some id) : id.index = i := by
  simp only [ofIndex] at h
  split at h
  · simp only [Option.some.injEq] at h
    subst h
    simp only [index, BitVec.toNat_ofNat]
    omega
  · cases h

/-- A header with its weak count and the accounting around them. -/
structure Object (pw : PointerWidth) (Tid : Type) where
  header : RawBrcHeader pw
  weakCount : BitVec 32
  freed : Bool
  strong : Tid → Nat
  weak : Tid → Nat
  destroyed : Nat
  /-- The value was destroyed while a strong handle was live. -/
  premature : Bool
  pushed : Nat

namespace Object

variable {pw : PointerWidth} {Tid : Type} [DecidableEq Tid]

/-- The object a call of `Brc::new` leaves behind, held once by `t`. -/
def new (t : Tid) (thisId : Option ShortThreadId) : Object pw Tid where
  header := .init thisId
  weakCount := 1
  freed := false
  strong := raise (fun _ => 0) t
  weak := fun _ => 0
  destroyed := 0
  premature := false
  pushed := 0

theorem new_unqueued (t : Tid) (thisId) :
    (new t thisId : Object pw Tid).header.shared.queued = false := by
  cases thisId <;> simp [new]

theorem new_owner (t : Tid) (thisId) :
    (new t thisId : Object pw Tid).header.biased.ownerId = thisId := by
  cases thisId <;> simp [new, BiasedWord.unowned]

/-- `BrcHeader::drop_weak` and, for the last reference, `drop_weak_slow`. -/
def dropWeak (ob : Object pw Tid) : Object pw Tid :=
  { ob with weakCount := ob.weakCount - 1, freed := ob.freed || ob.weakCount == 1 }

/-- `Brc::downgrade`, with no thread inside `is_unique`. -/
def downgrade (ob : Object pw Tid) (t : Tid) : Except Fault (Object pw Tid) :=
  if weakOverflowThreshold < ob.weakCount.toNat then .error .weakRefcntOverflow
  else .ok { ob with weakCount := ob.weakCount + 1, weak := raise ob.weak t }

/-- `Weak::clone`. -/
def cloneWeak (ob : Object pw Tid) (t : Tid) : Except Fault (Object pw Tid) :=
  if weakOverflowThreshold < ob.weakCount.toNat then .error .weakRefcntOverflow
  else .ok { ob with weakCount := ob.weakCount + 1, weak := raise ob.weak t }

/-- `Weak::drop`. -/
def releaseWeak (ob : Object pw Tid) (t : Tid) : Object pw Tid :=
  { ob with weak := lower ob.weak t }.dropWeak

def incrementStrongShared (ob : Object pw Tid) (t : Tid) : Except Fault (Object pw Tid) :=
  if RawBrcHeader.pastThreshold ob.header.shared then .error .sharedRefcntOverflow
  else .ok { ob with header := ob.header.fetchAddShared, strong := raise ob.strong t }

def incrementStrong (ob : Object pw Tid) (t : Tid) (thisId : Option ShortThreadId) :
    Except Fault (Object pw Tid) :=
  match ob.header.biased.attemptIncrement thisId with
  | some new => .ok { ob with header := ob.header.storeBiased new, strong := raise ob.strong t }
  | none => ob.incrementStrongShared t

/-- `Weak::upgrade`; the flag says whether there is a new handle. -/
def incrementStrongUnlessZero (ob : Object pw Tid) (t : Tid) (thisId : Option ShortThreadId) :
    Except Fault (Object pw Tid × Bool) :=
  match ob.header.biased.attemptIncrement thisId with
  | some new =>
      .ok ({ ob with header := ob.header.storeBiased new, strong := raise ob.strong t }, true)
  | none => do
      match ← ob.header.shared.upgraded with
      | none => .ok (ob, false)
      | some new =>
          .ok ({ ob with header := ob.header.storeShared new, strong := raise ob.strong t }, true)

/-- `Brc::strong_count`. -/
def strongCount (ob : Object pw Tid) (thisId : Option ShortThreadId) : Except Nat Nat :=
  RawBrcHeader.strongCount thisId ob.header.shared ob.header.biased

/-- `Brc::is_unique`; the lock it takes on the weak count is released again. -/
def isUnique (ob : Object pw Tid) (thisId : Option ShortThreadId) : Bool :=
  if ob.header.biased.isDefinitelyNotUnique thisId then false
  else if ob.weakCount = 1 then RawBrcHeader.isUnique thisId ob.header.shared ob.header.biased
  else false

variable [Fintype Tid]

/-- `DropInfo::dealloc`: destroy the value, then release the weak reference that
    all strong references share. -/
def dealloc (ob : Object pw Tid) : Object pw Tid :=
  { ob with
    destroyed := ob.destroyed + 1
    premature := ob.premature || decide (∃ t, 0 < ob.strong t) }.dropWeak

/-- `decrement_biased_slow`, and the dealloc of its caller. -/
def decrementBiasedSlow (ob : Object pw Tid) (t : Tid) : Object pw Tid :=
  let merged := { ob with
    header := ob.header.fetchOrMerged.storeBiased .unowned
    strong := lower ob.strong t }
  if ob.header.shared.sharedCount.value = 0 then merged.dealloc else merged

/-- `decrement_shared` up to its last branch; `true` when this call has won the
    right to queue the object. -/
def decrementShared (ob : Object pw Tid) (t : Tid) : Except Fault (Object pw Tid × Bool) := do
  let new ← ob.header.shared.decremented
  let stored := { ob with header := ob.header.storeShared new, strong := lower ob.strong t }
  if ob.header.shared.wonQueue new then .ok (stored, true)
  else if new.isDead then .ok (stored.dealloc, false)
  else .ok (stored, false)

/-- `decrement_strong`, and the dealloc of its caller. -/
def decrementStrong (ob : Object pw Tid) (t : Tid) (thisId : Option ShortThreadId) :
    Except Fault (Object pw Tid × Bool) :=
  match ob.header.biased.decrementBiased thisId with
  | .store new =>
      .ok ({ ob with header := ob.header.storeBiased new, strong := lower ob.strong t }, false)
  | .slow => .ok (ob.decrementBiasedSlow t, false)
  | .notOwner => ob.decrementShared t

/-- `explicit_merge`. -/
def explicitMerge (ob : Object pw Tid) (biasedTid : ShortThreadId) : Except Fault (Object pw Tid) :=
  if ob.header.biased.ownerId ≠ some biasedTid then .error .explicitMergeBadId
  else do
    let new ← ob.header.shared.mergedWith ob.header.biased.biasedCount
    let merged := { ob with header := (ob.header.storeShared new).storeBiased .unowned }
    if new.sharedCount.value < 0 then .error .negativeRefcntMerge
    else if new.sharedCount.value = 0 then .ok merged.dealloc
    else .ok merged

end Object

/-- The whole process between two calls. -/
structure World (pw : PointerWidth) (Tid Oid : Type) where
  threads : List (Option (SharedThreadInfo Oid))
  shortThreadIdsExhausted : Bool
  fast : Tid → LocalThreadStateFast
  objects : Oid → Option (Object pw Tid)

namespace World

variable {pw : PointerWidth} {Tid Oid : Type}

def shortId (w : World pw Tid Oid) (t : Tid) : Option ShortThreadId := (w.fast t).existingShortId

/-- `SharedThreadInfo::get_by_id`. -/
def getById (w : World pw Tid Oid) (id : ShortThreadId) : Option (SharedThreadInfo Oid) :=
  (w.threads[id.index]?).join

def setInfo (w : World pw Tid Oid) (id : ShortThreadId) (info : SharedThreadInfo Oid) :
    World pw Tid Oid :=
  { w with threads := w.threads.set id.index (some info) }

def setFast [DecidableEq Tid] (w : World pw Tid Oid) (t : Tid) (fast : LocalThreadStateFast) :
    World pw Tid Oid :=
  { w with fast := Function.update w.fast t fast }

def setObject [DecidableEq Oid] (w : World pw Tid Oid) (o : Oid) (ob : Object pw Tid) :
    World pw Tid Oid :=
  { w with objects := Function.update w.objects o (some ob) }

/-- What the queue of the thread with this id holds. -/
def queueOf (w : World pw Tid Oid) (id : ShortThreadId) : List Oid :=
  ((w.getById id).bind (·.queuedObjects)).getD []

/-- The thread with this id has not started to die. -/
def liveId (w : World pw Tid Oid) (id : ShortThreadId) : Bool :=
  (w.getById id).any (·.stateFlag.isLive)

section Updates

variable {w : World pw Tid Oid} {o : Oid} {ob : Object pw Tid} {t : Tid} {id : ShortThreadId}
  {info : SharedThreadInfo Oid} {fast : LocalThreadStateFast}

@[simp] theorem objects_setObject_self [DecidableEq Oid] : (w.setObject o ob).objects o = some ob :=
  Function.update_self ..

theorem objects_setObject_of_ne [DecidableEq Oid] {o'} (different : o' ≠ o) :
    (w.setObject o ob).objects o' = w.objects o' := Function.update_of_ne different ..

@[simp] theorem getById_setObject [DecidableEq Oid] : (w.setObject o ob).getById = w.getById := rfl

@[simp] theorem queueOf_setObject [DecidableEq Oid] : (w.setObject o ob).queueOf = w.queueOf := rfl

@[simp] theorem liveId_setObject [DecidableEq Oid] : (w.setObject o ob).liveId = w.liveId := rfl

@[simp] theorem shortId_setObject [DecidableEq Oid] : (w.setObject o ob).shortId = w.shortId := rfl

@[simp] theorem objects_setInfo : (w.setInfo id info).objects = w.objects := rfl

@[simp] theorem shortId_setInfo : (w.setInfo id info).shortId = w.shortId := rfl

@[simp] theorem objects_setFast [DecidableEq Tid] : (w.setFast t fast).objects = w.objects := rfl

@[simp] theorem getById_setFast [DecidableEq Tid] : (w.setFast t fast).getById = w.getById := rfl

/-- A slot for a thread that got no short id registers nothing. -/
theorem getById_push_none {exhausted} :
    ({ w with threads := w.threads ++ [none], shortThreadIdsExhausted := exhausted }).getById id =
      w.getById id := by
  simp only [getById, List.getElem?_append]
  split
  · rfl
  · rename_i outside
    have absent : w.threads[id.index]? = none := List.getElem?_eq_none (by omega)
    rw [absent]
    cases id.index - w.threads.length <;> rfl

theorem getById_push_self (fresh : id.index = w.threads.length) :
    ({ w with threads := w.threads ++ [some info] }).getById id = some info := by
  simp only [getById, fresh, List.getElem?_concat_length, Option.join_some]

theorem getById_push_of_ne {id'} (fresh : id.index = w.threads.length) (different : id' ≠ id) :
    ({ w with threads := w.threads ++ [some info] }).getById id' = w.getById id' := by
  have indices : id'.index ≠ w.threads.length := fun same =>
    different (ShortThreadId.ext_index (same.trans fresh.symm))
  simp only [getById, List.getElem?_append]
  split
  · rfl
  · rename_i outside
    have absent : w.threads[id'.index]? = none := List.getElem?_eq_none (by omega)
    obtain ⟨k, beyond⟩ : ∃ k, id'.index - w.threads.length = k + 1 :=
      ⟨id'.index - w.threads.length - 1, by omega⟩
    rw [absent, beyond]
    rfl

theorem getById_fresh (fresh : id.index = w.threads.length) : w.getById id = none := by
  rw [getById, List.getElem?_eq_none (by omega)]
  rfl

@[simp] theorem liveId_setFast [DecidableEq Tid] : (w.setFast t fast).liveId = w.liveId := rfl

@[simp] theorem queueOf_setFast [DecidableEq Tid] : (w.setFast t fast).queueOf = w.queueOf := rfl

@[simp] theorem shortId_setFast_self [DecidableEq Tid] :
    (w.setFast t fast).shortId t = fast.existingShortId := by
  simp only [shortId, setFast, Function.update_self]

theorem shortId_setFast_of_ne [DecidableEq Tid] {t'} (different : t' ≠ t) :
    (w.setFast t fast).shortId t' = w.shortId t' := by
  simp only [shortId, setFast, Function.update_of_ne different]

theorem getById_setInfo_of_ne {id'} (different : id' ≠ id) :
    (w.setInfo id info).getById id' = w.getById id' := by
  have indices : id.index ≠ id'.index := fun same => different (ShortThreadId.ext_index same.symm)
  simp only [getById, setInfo, List.getElem?_set_ne indices]

theorem index_lt_of_getById (known : (w.getById id).isSome) : id.index < w.threads.length := by
  by_contra outside
  rw [getById, List.getElem?_eq_none (by omega)] at known
  cases known

theorem getById_setInfo_self (known : (w.getById id).isSome) :
    (w.setInfo id info).getById id = some info := by
  simp only [getById, setInfo, List.getElem?_set_self (index_lt_of_getById known), Option.join_some]

theorem getById_setInfo_isSome (known : (w.getById id).isSome) (id' : ShortThreadId) :
    ((w.setInfo id info).getById id').isSome = (w.getById id').isSome := by
  by_cases same : id' = id
  · rw [same, getById_setInfo_self known, known]
    rfl
  · rw [getById_setInfo_of_ne same]

theorem exists_of_liveId (live : w.liveId id = true) :
    ∃ info, w.getById id = some info ∧ info.stateFlag.isLive = true := by
  rw [liveId, Option.any_eq_true] at live
  obtain ⟨info, found, live⟩ := live
  exact ⟨info, found, live⟩

theorem getById_of_liveId (live : w.liveId id = true) : (w.getById id).isSome := by
  obtain ⟨info, found, _⟩ := exists_of_liveId live
  rw [found]
  rfl

theorem liveId_setInfo_self (known : (w.getById id).isSome) :
    (w.setInfo id info).liveId id = info.stateFlag.isLive := by
  rw [liveId, getById_setInfo_self known, Option.any_some]

theorem liveId_setInfo_of_ne {id'} (different : id' ≠ id) :
    (w.setInfo id info).liveId id' = w.liveId id' := by
  rw [liveId, getById_setInfo_of_ne different, liveId]

theorem queueOf_setInfo_self (known : (w.getById id).isSome) :
    (w.setInfo id info).queueOf id = info.queuedObjects.getD [] := by
  rw [queueOf, getById_setInfo_self known, Option.bind_some]

theorem queueOf_setInfo_of_ne {id'} (different : id' ≠ id) :
    (w.setInfo id info).queueOf id' = w.queueOf id' := by
  simp only [queueOf, getById_setInfo_of_ne different]

theorem setInfo_setInfo {info'} :
    (w.setInfo id info).setInfo id info' = w.setInfo id info' := by
  simp only [setInfo, List.set_set]

/-- Writing back what is registered changes nothing. -/
theorem setInfo_getById (found : w.getById id = some info) : w.setInfo id info = w := by
  have inside := index_lt_of_getById (by rw [found]; rfl)
  rw [getById, List.getElem?_eq_getElem inside, Option.join_some] at found
  simp only [setInfo, ← found, List.set_getElem_self]

theorem setInfo_listed (found : w.getById id = some info) {queue}
    (listed : info.queuedObjects = some queue) : w.setInfo id ⟨info.stateFlag, some queue⟩ = w := by
  rw [← listed]
  exact World.setInfo_getById found

theorem setObject_setObject [DecidableEq Oid] {ob'} :
    (w.setObject o ob).setObject o ob' = w.setObject o ob' := by
  simp only [setObject, Function.update_idem]

theorem setInfo_setObject [DecidableEq Oid] :
    (w.setInfo id info).setObject o ob = (w.setObject o ob).setInfo id info :=
  rfl

end Updates

/-- Follow a pointer to a header. -/
def deref (w : World pw Tid Oid) (o : Oid) : Except Fault (Object pw Tid) :=
  match w.objects o with
  | none => .error .useAfterFree
  | some ob => if ob.freed then .error .useAfterFree else .ok ob

theorem deref_eq_ok {w : World pw Tid Oid} {o : Oid} {ob : Object pw Tid} :
    w.deref o = .ok ob ↔ w.objects o = some ob ∧ ob.freed = false := by
  unfold deref
  cases w.objects o with
  | none => simp
  | some ob' =>
      cases freed : ob'.freed with
      | true =>
          simp only [freed, if_true, reduceCtorEq, Option.some.injEq, false_iff, not_and]
          rintro rfl
          simp [freed]
      | false =>
          simp only [freed, Bool.false_eq_true, if_false, Except.ok.injEq, Option.some.injEq,
            iff_self_and]
          rintro rfl
          exact freed

variable [DecidableEq Tid]

/-- Run an operation of one header. -/
def onObject [DecidableEq Oid] (w : World pw Tid Oid) (o : Oid)
    (op : Object pw Tid → Except Fault (Object pw Tid)) : Except Fault (World pw Tid Oid) := do
  let ob ← w.deref o
  let ob' ← op ob
  return w.setObject o ob'

/-- `init_thread`. The thread local caches a failure; failing again is the same,
    because the exhaustion flag stays set. -/
def initThread (w : World pw Tid Oid) (t : Tid) : World pw Tid Oid × Option ShortThreadId :=
  if w.shortThreadIdsExhausted then (w, none)
  else
    match ShortThreadId.ofIndex w.threads.length with
    | none => ({ w with threads := w.threads ++ [none], shortThreadIdsExhausted := true }, none)
    | some id =>
        let info : SharedThreadInfo Oid := ⟨.live, some []⟩
        ({ w with threads := w.threads ++ [some info] }.setFast t ⟨.active, some id⟩, some id)

/-- `LocalThreadState::with_current`: the world after the lazy initialization,
    and the id of the state that the closure sees. -/
def withCurrent (w : World pw Tid Oid) (t : Tid) : World pw Tid Oid × Option ShortThreadId :=
  match (w.fast t).status with
  | .uninit => w.initThread t
  | .active => (w, w.shortId t)
  | .deadOrDying => (w, none)

@[simp] theorem objects_initThread (w : World pw Tid Oid) (t : Tid) :
    (w.initThread t).1.objects = w.objects := by
  rw [initThread]
  split
  · rfl
  · split <;> rfl

@[simp] theorem objects_withCurrent (w : World pw Tid Oid) (t : Tid) :
    (w.withCurrent t).1.objects = w.objects := by
  rw [withCurrent]
  split
  · exact objects_initThread w t
  · rfl
  · rfl

variable [DecidableEq Oid]

/-- `currently_needs_collect`; without a thread state the flag read is the dummy. -/
def currentlyNeedsCollect (w : World pw Tid Oid) (t : Tid) : Bool :=
  match (w.shortId t).bind w.getById with
  | none => true
  | some info => info.stateFlag != .live

/-- `RawBrcHeader::init` and the rest of `alloc_with_in` after its collection. -/
def allocate (w : World pw Tid Oid) (t : Tid) (o : Oid) : World pw Tid Oid :=
  (w.withCurrent t).1.setObject o (.new t (w.withCurrent t).2)

/-- `clone_no_collect`. -/
def cloneNoCollect (w : World pw Tid Oid) (t : Tid) (o : Oid) : Except Fault (World pw Tid Oid) :=
  w.onObject o fun ob => ob.incrementStrong t (w.shortId t)

variable [Fintype Tid]

def explicitMerge (w : World pw Tid Oid) (biasedTid : ShortThreadId) (o : Oid) :
    Except Fault (World pw Tid Oid) :=
  w.onObject o fun ob => ob.explicitMerge biasedTid

/-- `ObjectQueue::do_process` on the objects in the order they are popped. -/
def doProcess (biasedTid : ShortThreadId) :
    List Oid → World pw Tid Oid → Except Fault (World pw Tid Oid)
  | [], w => .ok w
  | o :: rest, w => do doProcess biasedTid rest (← w.explicitMerge biasedTid o)

/-- `LocalThreadState::collect_force` of the thread with this id. -/
def collectForceOf (w : World pw Tid Oid) (id : ShortThreadId) : Except Fault (World pw Tid Oid) :=
  match w.getById id with
  | none => .ok w
  | some info =>
      if info.stateFlag.isLive then
        match info.queuedObjects with
        | none => .ok w
        | some queue => do
            let w' ← doProcess id queue w
            return w'.setInfo id ⟨.live, some []⟩
      else .ok w

/-- `collect_force()`. -/
def collectForce (w : World pw Tid Oid) (t : Tid) : Except Fault (World pw Tid Oid) :=
  match (w.withCurrent t).2 with
  | none => .ok (w.withCurrent t).1
  | some id => (w.withCurrent t).1.collectForceOf id

/-- `collect_slow`, told whether the thread is panicking. -/
def collectSlow (w : World pw Tid Oid) (t : Tid) (panicking : Bool) :
    Except Fault (World pw Tid Oid) :=
  match (w.withCurrent t).2 with
  | none => .ok (w.withCurrent t).1
  | some id =>
      if panicking then .ok (w.withCurrent t).1
      else if (w.withCurrent t).1.currentlyNeedsCollect t then (w.withCurrent t).1.collectForceOf id
      else .ok (w.withCurrent t).1

/-- `collect()`, `collect_nounwind()` and the implicit collection. -/
def collect (w : World pw Tid Oid) (t : Tid) (panicking : Bool) :
    Except Fault (World pw Tid Oid) :=
  if w.currentlyNeedsCollect t then w.collectSlow t panicking else .ok w

/-- `SharedThreadInfo::queue_object` on the owner's info. -/
def queueObject (w : World pw Tid Oid) (owner : ShortThreadId) (info : SharedThreadInfo Oid)
    (o : Oid) (ob : Object pw Tid) : Except Fault (World pw Tid Oid) :=
  match info.queuedObjects with
  | some queue =>
      let flag := if info.stateFlag = .live then .queuedObjects else info.stateFlag
      .ok ((w.setObject o { ob with pushed := ob.pushed + 1 }).setInfo owner
        ⟨flag, some (queue ++ [o])⟩)
  | none =>
      if info.stateFlag.isLive then .error .liveWithoutQueue
      else (w.setObject o ob).explicitMerge owner o

/-- `decrement_shared_do_queue` on an object whose queued flag was just set. -/
def decrementSharedDoQueue (w : World pw Tid Oid) (o : Oid) (ob : Object pw Tid) :
    Except Fault (World pw Tid Oid) :=
  match ob.header.biased.ownerId with
  | none => .error .negativeRefcntNoOwner
  | some owner =>
      match w.getById owner with
      | none => .error .ownerUndefinedState
      | some info => w.queueObject owner info o ob

/-- `drop_no_collect`. -/
def dropNoCollect (w : World pw Tid Oid) (t : Tid) (o : Oid) : Except Fault (World pw Tid Oid) := do
  let ob ← w.deref o
  let (ob', won) ← ob.decrementStrong t (w.shortId t)
  if won then w.decrementSharedDoQueue o ob' else .ok (w.setObject o ob')

/-- `Drop for LocalThreadState`: the local id goes first, the queue's destructor
    merges what is left in it, then the flag becomes `Dead`. -/
def threadDeath (w : World pw Tid Oid) (t : Tid) : Except Fault (World pw Tid Oid) :=
  match w.shortId t with
  | none => .ok w
  | some id =>
      match w.getById id with
      | none => .ok (w.setFast t ⟨.deadOrDying, none⟩)
      | some info => do
          let w' ← doProcess id (info.queuedObjects.getD [])
            ((w.setFast t ⟨.deadOrDying, none⟩).setInfo id ⟨.dying, none⟩)
          return w'.setInfo id ⟨.dead, none⟩

end World

/-- The calls. `panicking` is `std::thread::panicking()` at an implicit collection. -/
inductive Call (Tid Oid : Type) where
  | new (t : Tid) (o : Oid) (panicking : Bool)
  | clone (t : Tid) (o : Oid) (panicking : Bool)
  | cloneNoCollect (t : Tid) (o : Oid)
  | cloneShared (t : Tid) (o : Oid)
  | drop (t : Tid) (o : Oid) (panicking : Bool)
  | dropNoCollect (t : Tid) (o : Oid)
  | upgrade (t : Tid) (o : Oid)
  | downgrade (t : Tid) (o : Oid)
  | cloneWeak (t : Tid) (o : Oid)
  | dropWeak (t : Tid) (o : Oid)
  | collect (t : Tid) (panicking : Bool)
  | collectForce (t : Tid)
  | threadDeath (t : Tid)
  | send (source target : Tid) (o : Oid)
  | sendWeak (source target : Tid) (o : Oid)
  deriving DecidableEq

namespace World

variable {pw : PointerWidth} {Tid Oid : Type} [DecidableEq Tid] [DecidableEq Oid]

def holdsStrong (w : World pw Tid Oid) (t : Tid) (o : Oid) : Prop :=
  ∃ ob, w.objects o = some ob ∧ 1 ≤ ob.strong t

def holdsWeak (w : World pw Tid Oid) (t : Tid) (o : Oid) : Prop :=
  ∃ ob, w.objects o = some ob ∧ 1 ≤ ob.weak t

instance (w : World pw Tid Oid) (t : Tid) (o : Oid) : Decidable (w.holdsStrong t o) :=
  match h : w.objects o with
  | none => .isFalse fun ⟨_, found, _⟩ => by simp [h] at found
  | some ob => decidable_of_iff (1 ≤ ob.strong t) (by simp [holdsStrong, h])

instance (w : World pw Tid Oid) (t : Tid) (o : Oid) : Decidable (w.holdsWeak t o) :=
  match h : w.objects o with
  | none => .isFalse fun ⟨_, found, _⟩ => by simp [h] at found
  | some ob => decidable_of_iff (1 ≤ ob.weak t) (by simp [holdsWeak, h])

/-- A call needs the handle it is made through; `new` gets an address that no
    object has had. -/
def enabled (w : World pw Tid Oid) : Call Tid Oid → Prop
  | .new _ o _ => w.objects o = none
  | .clone t o _ | .cloneNoCollect t o | .cloneShared t o | .drop t o _ | .dropNoCollect t o
  | .downgrade t o | .send t _ o => w.holdsStrong t o
  | .upgrade t o | .cloneWeak t o | .dropWeak t o | .sendWeak t _ o => w.holdsWeak t o
  | .collect _ _ | .collectForce _ | .threadDeath _ => True

instance (w : World pw Tid Oid) (c : Call Tid Oid) : Decidable (w.enabled c) :=
  match c with
  | .new _ o _ => decidable_of_iff ((w.objects o).isNone = true) (by simp [enabled])
  | .clone t o _ | .cloneNoCollect t o | .cloneShared t o | .drop t o _ | .dropNoCollect t o
  | .downgrade t o | .send t _ o => inferInstanceAs (Decidable (w.holdsStrong t o))
  | .upgrade t o | .cloneWeak t o | .dropWeak t o | .sendWeak t _ o =>
      inferInstanceAs (Decidable (w.holdsWeak t o))
  | .collect _ _ | .collectForce _ | .threadDeath _ => inferInstanceAs (Decidable True)

variable [Fintype Tid]

/-- Run a call to its end. -/
def call (w : World pw Tid Oid) : Call Tid Oid → Except Fault (World pw Tid Oid)
  | .new t o panicking => do return (← w.collect t panicking).allocate t o
  | .clone t o panicking => do (← w.collect t panicking).cloneNoCollect t o
  | .cloneNoCollect t o => w.cloneNoCollect t o
  | .cloneShared t o => w.onObject o fun ob => ob.incrementStrongShared t
  | .drop t o panicking => do (← w.collect t panicking).dropNoCollect t o
  | .dropNoCollect t o => w.dropNoCollect t o
  | .upgrade t o => w.onObject o fun ob => do
      return (← ob.incrementStrongUnlessZero t (w.shortId t)).1
  | .downgrade t o => w.onObject o fun ob => ob.downgrade t
  | .cloneWeak t o => w.onObject o fun ob => ob.cloneWeak t
  | .dropWeak t o => w.onObject o fun ob => .ok (ob.releaseWeak t)
  | .collect t panicking => w.collect t panicking
  | .collectForce t => w.collectForce t
  | .threadDeath t => w.threadDeath t
  | .send source target o => w.onObject o fun ob =>
      .ok { ob with strong := raise (lower ob.strong source) target }
  | .sendWeak source target o => w.onObject o fun ob =>
      .ok { ob with weak := raise (lower ob.weak source) target }

/-- No thread has run yet. -/
def initial : World pw Tid Oid where
  threads := []
  shortThreadIdsExhausted := false
  fast := fun _ => ⟨.uninit, none⟩
  objects := fun _ => none

/-- Enabled calls that return. -/
def next (w : World pw Tid Oid) (c : Call Tid Oid) : Option (World pw Tid Oid) :=
  if w.enabled c then (w.call c).toOption else none

end World

/-- All runs of calls from the start of the process. -/
def calls (pw : PointerWidth) (Tid Oid : Type) [DecidableEq Tid] [DecidableEq Oid] [Fintype Tid] :
    Transition.System (World pw Tid Oid) (Call Tid Oid) :=
  .ofNext (fun w => w = .initial) World.next

theorem calls_step {pw : PointerWidth} {Tid Oid : Type} [DecidableEq Tid] [DecidableEq Oid]
    [Fintype Tid] {w w' : World pw Tid Oid} {c : Call Tid Oid} :
    (calls pw Tid Oid).step w c w' ↔ w.enabled c ∧ w.call c = .ok w' := by
  simp only [calls, Transition.System.ofNext, World.next]
  split
  · rename_i enabled
    cases w.call c <;> simp [enabled, Except.toOption]
  · rename_i disabled
    simp [disabled]

end BiasedRc
