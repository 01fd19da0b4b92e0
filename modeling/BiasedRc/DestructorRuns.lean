import BiasedRc.DestructorSteps
import BiasedRc.Lib.Roots
import BiasedRc.Safety

/-! # Nested destructors over whole runs

Destroying a value may destroy any number of others, so a call has no bound of
its own. What bounds all calls together is what is left to do: each handle in a
value is dropped once, each object is queued, merged and destroyed once. When
nothing is left to do, an object that is still there is held by a thread or kept
alive by a cycle.
-/

namespace BiasedRc

open Tally Outcome Transition System

namespace Object

variable {pw : PointerWidth} {Tid : Type} {ob ob' : Object pw Tid}

/-- The steps of its life that an object has still before it. -/
def stages (ob : Object pw Tid) : Nat :=
  (if ob.header.shared.merged then 0 else if ob.header.shared.queued then 1 else 2) +
    (1 - ob.destroyed)

/-- The flags are never cleared. -/
structure Advances (ob ob' : Object pw Tid) : Prop where
  merged : ob.header.shared.merged = true → ob'.header.shared.merged = true
  queued : ob.header.shared.queued = true → ob'.header.shared.queued = true

theorem Advances.stages_le (advances : ob.Advances ob') (destroyed : ob'.destroyed = ob.destroyed) :
    ob'.stages ≤ ob.stages := by
  have merged := advances.merged
  have queued := advances.queued
  simp only [stages, destroyed]
  cases h : ob.header.shared.merged <;> cases h' : ob'.header.shared.merged <;>
    cases k : ob.header.shared.queued <;> cases k' : ob'.header.shared.queued <;> simp_all

theorem releaseStrong_advances [DecidableEq Tid] (t : Tid) (thisId : Option ShortThreadId) :
    Yields (fun _ => True) (fun result => ob.Advances result.1) (ob.releaseStrong t thisId) := by
  simp only [releaseStrong]
  cases ob.header.biased.decrementBiased thisId with
  | store new => exact ⟨id, id⟩
  | slow =>
      refine ⟨fun _ => ?_, fun queued => ?_⟩
      · simp [releaseBiasedSlow]
      · simpa [releaseBiasedSlow] using queued
  | notOwner =>
      simp only [releaseShared]
      cases exchanged : ob.header.shared.decremented with
      | error fault => trivial
      | ok new =>
          obtain ⟨_, merged, queued⟩ := SharedWord.decremented_eq_ok exchanged
          have advances : ob.Advances
              { ob with header := ob.header.storeShared new, strong := lower ob.strong t } := by
            refine ⟨fun was => ?_, fun was => ?_⟩
            · simpa [merged] using was
            · simp [queued, was]
          simp only [bind, Except.bind]
          split
          · exact advances
          · split <;> exact advances

theorem incrementStrong_advances [DecidableEq Tid] {t : Tid} {thisId : Option ShortThreadId}
    (noCarry : ob.header.biased.attemptIncrement thisId = none →
      ob.header.shared.sharedCount.value ≠ -1) :
    Yields (fun _ => True) (fun ob' => ob.Advances ob' ∧ ob'.destroyed = ob.destroyed)
      (ob.incrementStrong t thisId) := by
  simp only [incrementStrong]
  cases taken : ob.header.biased.attemptIncrement thisId with
  | some new => exact ⟨⟨id, id⟩, rfl⟩
  | none =>
      simp only [incrementStrongShared]
      split
      · trivial
      · refine ⟨⟨fun merged => ?_, fun queued => ?_⟩, rfl⟩
        · simpa only [RawBrcHeader.shared_fetchAddShared (noCarry taken)] using merged
        · simpa only [RawBrcHeader.shared_fetchAddShared (noCarry taken)] using queued

theorem stages_le (ob : Object pw Tid) : ob.stages ≤ 3 := by
  simp only [stages]
  split
  · omega
  · split <;> omega

variable [Fintype Tid]

/-- An object that waits for its owner has two stages before it, to be merged and destroyed. -/
theorem stages_of_awaits (inv : ObjectInv ob) {id} (waits : ob.awaits id) : ob.stages = 2 := by
  simp only [stages, waits.1, waits.2.1, inv.unmerged_undestroyed waits.1, Bool.false_eq_true, if_false,
    if_true]

theorem stages_beginDealloc [DecidableEq Tid] {t : Tid} (inv : ObjectInv (ob.beginDealloc t)) :
    (ob.beginDealloc t).stages + 1 = ob.stages := by
  have once := inv.destroyed_le_one
  have header : (ob.beginDealloc t).header = ob.header := rfl
  have more : (ob.beginDealloc t).destroyed = ob.destroyed + 1 := rfl
  simp only [stages, header, more] at once ⊢
  omega

omit [Fintype Tid] in
theorem stages_of_merged (merged : ob.header.shared.merged = true) : ob.stages ≤ 1 := by
  simp only [stages, merged, if_true]
  omega

end Object

namespace Frame

variable {Oid : Type}

/-- What a call adds to the work that is left. -/
def work : Frame Oid → Nat
  | .resume .alloc => 4
  | .drop (.brc _) => 3
  | .aborts => 0
  | _ => 1

end Frame

theorem World.drained_of_threads {pw : PointerWidth} {Tid Oid : Type} {w : World pw Tid Oid}
    (empty : ∀ slot ∈ w.threads, (slot.bind (·.queuedObjects)).getD [] = []) (id : ShortThreadId) :
    w.queueOf id = [] := by
  rw [World.queueOf, World.getById]
  cases slot : w.threads[id.index]? with
  | none => rfl
  | some info => exact empty info (List.mem_of_getElem? slot)

namespace Process

variable {pw : PointerWidth} {Tid Oid : Type} [DecidableEq Tid] [DecidableEq Oid] [Fintype Tid]
  [Fintype Oid]

/-- A bound on the steps that are left while no code makes a new call. -/
def work (s : Process pw Tid Oid) : Nat :=
  tally (fun frames => (frames.map Frame.work).sum) s.stack +
    (tally (fun handles => 4 * handles.length) s.fields +
      tally (fun ob : Option (Object pw (Holder Tid Oid)) => (ob.map Object.stages).getD 0)
        s.world.objects)

section Work

variable {s : Process pw Tid Oid} {t : Tid} {o : Oid} {ob : Object pw (Holder Tid Oid)}

omit [DecidableEq Oid] in
theorem work_setStack (t : Tid) (frames : List (Frame Oid)) :
    (s.setStack t frames).work + ((s.stack t).map Frame.work).sum =
      s.work + (frames.map Frame.work).sum := by
  have moved := tally_update (fun frames => (frames.map Frame.work).sum) s.stack t frames
  simp only [work, setStack] at moved ⊢
  omega

omit [DecidableEq Oid] in
theorem work_push {frames : List (Frame Oid)} : (s.push t frames).work = s.work + (frames.map Frame.work).sum := by
  have moved := s.work_setStack t (frames ++ s.stack t)
  rw [List.map_append, List.sum_append] at moved
  rw [push]
  omega

omit [DecidableEq Oid] in
theorem work_pop {frame : Frame Oid} {rest : List (Frame Oid)} (top : s.stack t = frame :: rest) :
    (s.setStack t rest).work + frame.work = s.work := by
  have moved := s.work_setStack t rest
  rw [top, List.map_cons, List.sum_cons] at moved
  omega

omit [DecidableEq Tid] [DecidableEq Oid] in
theorem work_setWorld {w : World pw (Holder Tid Oid) Oid} (objects : w.objects = s.world.objects) :
    (s.setWorld w).work = s.work := by
  simp only [work, setWorld, objects]

omit [DecidableEq Tid] in
theorem work_setObject (found : s.world.objects o = some ob) (ob' : Object pw (Holder Tid Oid)) :
    (s.setObject o ob').work + ob.stages = s.work + ob'.stages := by
  have moved := tally_update
    (fun ob : Option (Object pw (Holder Tid Oid)) => (ob.map Object.stages).getD 0)
    s.world.objects o (some ob')
  rw [found] at moved
  simp only [Option.map_some, Option.getD_some] at moved
  simp only [work, setObject, setWorld, World.setObject]
  omega

omit [DecidableEq Tid] in
theorem work_setFields (o : Oid) (handles : List (Handle Oid)) :
    (s.setFields o handles).work + 4 * (s.fields o).length = s.work + 4 * handles.length := by
  have moved := tally_update (fun handles => 4 * handles.length) s.fields o handles
  simp only [work, setFields]
  omega

theorem work_destroy (found : s.world.objects o = some ob) (ob' : Object pw (Holder Tid Oid)) :
    (s.destroy t o ob').work + ob.stages = s.work + (ob'.beginDealloc (.thread t)).stages + 1 := by
  have stored := work_setObject found (ob'.beginDealloc (.thread t))
  rw [destroy, work_push]
  simp only [List.map_cons, List.map_nil, List.sum_cons, List.sum_nil, Frame.work]
  omega

theorem work_handOver {source target : Holder Tid Oid} {handle : Handle Oid} :
    (s.setWorld (s.world.handOver source target handle)).work = s.work := by
  obtain same | ⟨ob, ob', found, header, destroyed, moved⟩ :=
    s.world.handOver_cases source target handle
  · rw [same]
    rfl
  · have stages : ob'.stages = ob.stages := by simp only [Object.stages, header, destroyed]
    have stored := work_setObject found ob'
    rw [moved]
    change (s.setObject handle.target ob').work = s.work
    omega

end Work

section Steps

variable {s : Process pw Tid Oid} {t : Tid} {o : Oid} {ob : Object pw (Holder Tid Oid)}
  {id : ShortThreadId} {rest : List (Frame Oid)}

theorem work_explicitMerge (found : s.world.objects o = some ob) (sound : ObjectInv ob)
    (waits : ob.awaits id) :
    Yields (fun _ => True) (fun s' => s'.work < s.work) (s.explicitMerge t id o) := by
  have before := Object.stages_of_awaits sound waits
  rw [explicitMerge, World.deref_eq_ok.mpr ⟨found, sound.not_freed_of_unmerged waits.1⟩]
  refine ((sound.mergeCounts (t := .thread t) waits).weaken fun _ _ => trivial).bind ?_
  rintro ⟨ob', dead⟩ merges
  cases dead with
  | true =>
      have merged : ob'.header.shared.merged = true := merges.merged
      have after := Object.stages_of_merged merged
      have fewer : (ob'.beginDealloc (.thread t)).stages + 1 = ob'.stages :=
        Object.stages_beginDealloc merges.inv
      have moved := work_destroy (t := t) found ob'
      change (s.destroy t o ob').work < s.work
      omega
  | false =>
      have after : ob'.stages ≤ 1 := Object.stages_of_merged merges.1.merged
      have moved := work_setObject found ob'
      change (s.setObject o ob').work < s.work
      omega

theorem Inv.work_decrementSharedDoQueue (inv : s.Inv) (found : s.world.objects o = some ob)
    {ob' brcs} (won : ob.Won brcs ob') (fewer : ob'.stages < ob.stages) :
    Yields (fun _ => True) (fun s' => s'.work < s.work) (s.decrementSharedDoQueue t o ob') := by
  obtain ⟨id, owner, _, _⟩ := won.inv.owned won.unmerged
  obtain ⟨info, listed⟩ :=
    Option.isSome_iff_exists.mp (inv.queues.registered found (won.biased ▸ owner))
  simp only [Process.decrementSharedDoQueue, owner, listed]
  cases queued : info.queuedObjects with
  | some queue =>
      have moved := work_setObject found { ob' with pushed := ob'.pushed + 1 }
      have same : Object.stages { ob' with pushed := ob'.pushed + 1 } = ob'.stages := rfl
      have stored : (s.setWorld ((s.world.setObject o { ob' with pushed := ob'.pushed + 1 }).setInfo id
          ⟨info.stateFlag.markQueued, some (queue ++ [o])⟩)).work =
            (s.setObject o { ob' with pushed := ob'.pushed + 1 }).work := rfl
      rw [yields_ok, stored]
      omega
  | none =>
      have dead : info.stateFlag.isLive = false := by rw [← inv.queues.flag listed, queued]; rfl
      have moved := work_setObject found ob'
      have guarded : ((s.setObject o ob').push t [.noUnwind]).work = (s.setObject o ob').work + 1 :=
        work_push
      simp only [dead, Bool.false_eq_true, if_false]
      refine (work_explicitMerge World.objects_setObject_self won.inv
        ⟨won.unmerged, won.queued, owner⟩).mono ?_
      intro s' less
      omega

theorem Inv.work_release (inv : s.Inv) (spare : s.has t (.brc o))
    (safe : s.world.DropSafe (.thread t) o) :
    Yields (fun _ => True) (fun s' => s'.work ≤ s.work) (s.release t o) := by
  obtain ⟨ob, found, sound, holds, free⟩ := inv.behind_brc spare
  have undestroyed := sound.held_undestroyed (holds.trans (le_total ob.strong _))
  rw [Process.release, World.deref_eq_ok.mpr ⟨found, sound.not_freed_of_strong holds⟩]
  refine ((sound.releaseStrong holds (safe ob found)).weaken fun _ _ => trivial).bind_eq ?_
  rintro ⟨ob', released⟩ returned result
  have advances := (Object.releaseStrong_advances ..).of_ok returned
  have memory : ob.SameMemory ob' := Object.releaseStrong_sameMemory.of_ok returned
  have fewer : ob'.stages ≤ ob.stages := advances.stages_le memory.destroyed
  cases released with
  | kept =>
      have moved := work_setObject found ob'
      change (s.setObject o ob').work ≤ s.work
      omega
  | dead =>
      have last : (ob'.beginDealloc (.thread t)).stages + 1 = ob'.stages :=
        Object.stages_beginDealloc result.inv
      have moved := work_destroy (t := t) found ob'
      change (s.destroy t o ob').work ≤ s.work
      omega
  | won =>
      have unmerged : ob.header.shared.merged = false := by
        rw [Bool.eq_false_iff]
        intro merged
        have merged' := advances.merged merged
        rw [result.unmerged] at merged'
        cases merged'
      have staged : ob'.stages < ob.stages := by
        simp only [Object.stages, unmerged, result.unmerged, result.unqueued, result.queued,
          memory.destroyed, Bool.false_eq_true, if_false, if_true]
        omega
      exact (inv.work_decrementSharedDoQueue found result staged).mono fun _ less => less.le

theorem Inv.work_clone (inv : s.Inv) (spare : s.has t (.brc o))
    (safe : s.world.CloneSafe (.thread t) o) :
    Yields (fun _ => True) (fun s' => s'.work ≤ s.work) (s.operate t (.clone o)) := by
  obtain ⟨ob, found, sound, holds, _⟩ := inv.behind_brc spare
  have stored : Yields (fun _ => True) (fun w => (s.setWorld w).work ≤ s.work)
      (s.world.onObject o fun ob => ob.incrementStrong (.thread t) (s.world.shortId (.thread t))) := by
    rw [World.onObject, World.deref_eq_ok.mpr ⟨found, sound.not_freed_of_strong holds⟩]
    refine (Object.incrementStrong_advances (safe ob found)).bind ?_
    rintro ob' ⟨advances, destroyed⟩
    have fewer := advances.stages_le destroyed
    have moved := work_setObject found ob'
    change (s.setObject o ob').work ≤ s.work
    omega
  exact stored.bind fun w less => less

theorem Inv.work_releaseWeak (inv : s.Inv) (spare : s.has t (.weak o)) :
    Yields (fun _ => True) (fun s' => s'.work = s.work)
      (s.onObject o fun ob => .ok (ob.releaseWeak (.thread t))) := by
  obtain ⟨ob, found, sound, holds, _⟩ := inv.behind_weak spare
  have moved := work_setObject found (ob.releaseWeak (.thread t))
  have same : (ob.releaseWeak (.thread t)).stages = ob.stages := rfl
  rw [Process.onObject, World.onObject,
    World.deref_eq_ok.mpr ⟨found, sound.not_freed_of_weak holds⟩]
  change (s.setObject o (ob.releaseWeak (.thread t))).work = s.work
  omega

theorem work_collectThen (t : Tid) (next : Operation Oid) :
    (s.collectThen t next).work ≤ s.work + 1 + (Frame.resume next).work := by
  have started : (s.setWorld (s.world.startCollect (.thread t) (s.panicking t)).1).work = s.work :=
    work_setWorld (World.objects_startCollect _)
  have loop := s.world.startCollect_snd (t := .thread t) (s.panicking t)
  simp only [collectThen, work_push, List.map_append, List.sum_append, started]
  obtain none | ⟨id, one⟩ := loop
  · rw [none]
    simp
  · rw [one]
    simp [Frame.work]
    omega

theorem Inv.work_processNext (inv : s.Inv) (top : s.stack t = .process id :: rest) :
    Yields (fun _ => True) (fun s' => s'.work < s.work) (s.processNext t id rest) := by
  have popped := work_pop top
  have returned : (s.setStack t rest).work < s.work := by
    simp only [Frame.work] at popped
    omega
  simp only [Process.processNext]
  cases listed : s.world.getById id with
  | none => exact returned
  | some info =>
      obtain ⟨flag, queue⟩ := info
      cases queue with
      | none => exact returned
      | some queue =>
          cases queue with
          | nil => exact returned
          | cons o queue =>
              have listedHere : o ∈ s.world.queueOf id ++ s.orphaned id := by
                rw [World.queueOf, listed]
                exact List.mem_append_left _ List.mem_cons_self
              obtain ⟨ob, found, waits⟩ := inv.queues.waiting listedHere
              exact work_explicitMerge (s := s.setWorld (s.world.setInfo id ⟨flag, some queue⟩)) found
                (inv.queues.object found) waits

theorem Inv.work_buryNext (inv : s.Inv) (top : s.stack t = .bury id :: rest) :
    Yields (fun _ => True) (fun s' => s'.work < s.work) (s.buryNext t id rest) := by
  have popped := work_pop top
  have returned : (s.setStack t rest).work < s.work := by
    simp only [Frame.work] at popped
    omega
  simp only [Process.buryNext]
  cases left : s.orphaned id with
  | nil => exact returned
  | cons o queue =>
      have listed : o ∈ s.world.queueOf id ++ s.orphaned id := by
        rw [left]
        exact List.mem_append_right _ List.mem_cons_self
      obtain ⟨ob, found, waits⟩ := inv.queues.waiting listed
      exact work_explicitMerge (s := s.setOrphaned id queue) found (inv.queues.object found) waits

/-- Every step of a running call leaves less to do. -/
theorem Inv.work_step (inv : s.Inv) (enabled : s.enabled (.step t)) (safe : s.Safe (.step t)) :
    Yields (fun _ => True) (fun s' => s'.work < s.work) (s.step t) := by
  rw [Process.step]
  rw [Safe] at safe
  cases stack : s.stack t with
  | nil => simp [Process.enabled, stack] at enabled
  | cons frame rest =>
      rw [stack] at safe
      have popped := work_pop stack
      have spare : ∀ handle, frame.owes = some handle → (s.setStack t rest).has t handle :=
        fun handle owes => inv.toBooks.has_pop stack owes
      cases frame with
      | aborts => simp [Process.enabled, stack, Frame.canStep] at enabled
      | drop handle =>
          cases handle with
          | brc o =>
              have called := (s.setStack t rest).work_collectThen t (.release o)
              simp only [Frame.work, yields_ok] at popped called ⊢
              omega
          | weak o =>
              have returned : (s.setStack t rest).Inv :=
                inv.pop stack (fun _ => by simp) (by simp) fun _ => by simp
              refine (returned.work_releaseWeak (spare _ rfl)).mono fun s' same => ?_
              simp only [Frame.work] at popped
              omega
      | glue o =>
          cases fields : s.fields o with
          | nil =>
              have returned : (s.setStack t rest).Inv := by
                refine inv.pop stack ?_ (by simp) fun _ => by simp
                rintro _ ⟨⟩
                exact fields
              simp only [fields]
              refine (returned.work_releaseWeak (spare _ rfl)).mono fun s' same => ?_
              simp only [Frame.work] at popped
              omega
          | cons handle others =>
              have taken := s.work_setFields o others
              have moved : ((s.setFields o others).setWorld
                  (s.world.handOver (.value o) (.thread t) handle)).work = (s.setFields o others).work :=
                work_handOver
              rw [fields, List.length_cons] at taken
              simp only [fields, yields_ok, work_push, moved, List.map_cons, List.map_nil,
                List.sum_cons, List.sum_nil]
              have small : (Frame.drop handle).work ≤ 3 := by cases handle <;> simp [Frame.work]
              omega
      | resume next =>
          have returned : (s.setStack t rest).Inv :=
            inv.pop stack (fun _ => by simp) (by simp) fun _ => by simp
          cases next with
          | alloc => simp [Process.enabled, stack, Frame.canStep] at enabled
          | nothing =>
              simp only [Frame.work] at popped
              simp only [Process.operate, yields_ok]
              omega
          | clone o =>
              simp only [Frame.work] at popped
              exact (returned.work_clone (spare _ rfl) safe).mono fun s' less => by omega
          | release o =>
              simp only [Frame.work] at popped
              exact (returned.work_release (spare _ rfl) safe).mono fun s' less => by omega
      | process id => exact inv.work_processNext stack
      | bury id => exact inv.work_buryNext stack
      | noUnwind =>
          simp only [Frame.work, yields_ok] at popped ⊢
          omega
      | caught =>
          simp only [Frame.work, yields_ok] at popped ⊢
          change (s.setStack t rest).work < s.work
          omega

theorem work_allocate (enabled : s.enabled (.allocate t o)) :
    Yields (fun _ => True) (fun s' => s'.work < s.work) (s.act (.allocate t o)) := by
  obtain ⟨waits, free⟩ := enabled
  obtain ⟨rest, stack⟩ := List.head?_eq_some_iff.mp waits
  have popped := work_pop stack
  have few := Object.stages_le
    (Object.new (.thread t) (s.world.withCurrent (.thread t)).2 : Object pw (Holder Tid Oid))
  have moved := tally_update
    (fun ob : Option (Object pw (Holder Tid Oid)) => (ob.map Object.stages).getD 0)
    s.world.objects o (some (.new (.thread t) (s.world.withCurrent (.thread t)).2))
  rw [free] at moved
  have tail : (s.stack t).tail = rest := by rw [stack, List.tail_cons]
  simp only [Process.act, yields_ok, tail]
  simp only [work, setStack, setWorld, World.allocate, World.setObject, World.objects_withCurrent,
    Frame.work, Option.map_none, Option.map_some, Option.getD_none, Option.getD_some] at popped moved ⊢
  omega

theorem Inv.work_act {a : Action Tid Oid} (inv : s.Inv) (enabled : s.enabled a) (safe : s.Safe a)
    (internal : a.internal = true) : Yields (fun _ => True) (fun s' => s'.work < s.work) (s.act a) := by
  cases a with
  | step t => exact inv.work_step enabled safe
  | allocate t o => exact work_allocate enabled
  | _ => cases internal

end Steps

/-- The innermost call is aborting, finds no memory, overflows or would lose count. -/
def Blocked (s : Process pw Tid Oid) (t : Tid) : Prop :=
  (s.stack t).head? = some .aborts ∨
    ((s.stack t).head? = some (.resume .alloc) ∧ ∀ o, s.world.objects o ≠ none) ∨
    ¬ s.Safe (.step t) ∨ ∃ fault, fault.Overflow ∧ s.step t = .error fault

variable {s s' : Process pw Tid Oid}

/-- A call that is running can go on. -/
theorem Inv.continues (inv : s.Inv) {t : Tid} (running : s.stack t ≠ []) (free : ¬ s.Blocked t) :
    ∃ a s', a.internal = true ∧ s.Safe a ∧ (processes pw Tid Oid).step s a s' := by
  simp only [Blocked, not_or, not_and, not_forall, not_not, not_exists] at free
  obtain ⟨goes, memory, safe, fits⟩ := free
  by_cases waits : (s.stack t).head? = some (.resume .alloc)
  · obtain ⟨o, vacant⟩ := memory waits
    exact ⟨.allocate t o, _, rfl, trivial, processes_step.mpr ⟨⟨waits, vacant⟩, rfl⟩⟩
  · have enabled : s.enabled (.step t) := by
      cases stack : s.stack t with
      | nil => exact absurd stack running
      | cons frame rest =>
          rw [stack] at goes waits
          simp only [Process.enabled, stack, List.head?_cons, Option.any_some]
          cases frame with
          | resume next => cases next <;> simp_all [Frame.canStep]
          | _ => simp_all [Frame.canStep]
    have outcome := inv.act enabled safe
    cases returned : s.step t with
    | ok s' => exact ⟨.step t, s', rfl, safe, processes_step.mpr ⟨enabled, returned⟩⟩
    | error fault => exact absurd returned (fits fault (outcome.of_error returned))

/-- The handle to `o` is stored in the value of `v`. -/
def Stores (s : Process pw Tid Oid) (v o : Oid) : Prop := .brc o ∈ s.fields v

/-- The code of some thread has a handle to `o`. -/
def Rooted (s : Process pw Tid Oid) (o : Oid) : Prop := ∃ t, 0 < s.world.held (.brc o) (.thread t)

omit [DecidableEq Tid] in
/-- At rest a value that is not destroyed has a handle that somebody can still drop. -/
theorem Inv.entered (inv : s.Inv) (idle : ∀ t, s.stack t = [])
    (drained : ∀ id, s.world.queueOf id = []) {o : Oid} (alive : s.Alive o) :
    s.Rooted o ∨ ∃ v, s.Stores v o ∧ s.Alive v := by
  obtain ⟨ob, found, undestroyed⟩ := alive
  have sound := inv.queues.object found
  have buried : ∀ id, s.orphaned id = [] := by
    intro id
    by_contra left
    obtain ⟨t, running | aborting⟩ := inv.orphans id left
    · simp [idle t] at running
    · simp [idle t] at aborting
  have kept : total ob.strong ≠ 0 := by
    intro dropped
    have unmerged : ob.header.shared.merged = false := by
      rw [Bool.eq_false_iff]
      intro merged
      have once := sound.destroyed
      rw [if_pos ⟨merged, dropped⟩, undestroyed] at once
      cases once
    obtain ⟨id, owner, positive, split⟩ := sound.owned unmerged
    have queued : ob.header.shared.queued = true := by
      by_contra unqueued
      have := sound.unqueued unmerged (by simpa using unqueued)
      omega
    have listed := (inv.queues.queue id o).mpr ⟨ob, found, unmerged, queued, owner⟩
    simp [drained id, buried id] at listed
  obtain ⟨holder, holds⟩ : ∃ holder, 0 < ob.strong holder := by
    by_contra none
    simp only [not_exists, Nat.not_lt, Nat.le_zero] at none
    exact kept ((total_eq_zero_iff ob.strong).mpr none)
  cases holder with
  | thread t => exact .inl ⟨t, by rwa [World.held_brc found]⟩
  | value v =>
      have counted := inv.stored v (.brc o)
      rw [World.held_brc found] at counted
      have stores : Handle.brc o ∈ s.fields v := List.count_pos_iff.mp (counted ▸ holds)
      refine .inr ⟨v, stores, ?_⟩
      obtain alive | ⟨t, running | aborting⟩ := inv.inside v (List.ne_nil_of_mem stores)
      · exact alive
      · simp [idle t] at running
      · simp [idle t] at aborting

/-- In safe runs every value is destroyed at most once and without handles, with all handles
    stored in it; its memory outlives its destructor, and no check but one for overflow fails. -/
theorem nested_destructors_safe (reached : ((processes pw Tid Oid).restrict Safe).Reachable s) :
    (∀ o ob, s.world.objects o = some ob → ob.DestroyedSafely ∧
      (ob.destroyed = 1 → s.fields o ≠ [] → ∃ t, .glue o ∈ s.stack t ∨ .aborts ∈ s.stack t)) ∧
    (∀ t o, .glue o ∈ s.stack t → ∃ ob, s.world.objects o = some ob ∧ ob.freed = false) ∧
    ∀ a, s.enabled a → s.Safe a → Yields Fault.Overflow (fun _ => True) (s.act a) := by
  have inv := Inv.of_safe_run reached
  refine ⟨?_, ?_, ?_⟩
  · intro o ob found
    refine ⟨(inv.queues.object found).destroyedSafely, ?_⟩
    intro once stored
    refine (inv.inside o stored).resolve_left ?_
    rintro ⟨ob', found', undestroyed⟩
    rw [found, Option.some.injEq] at found'
    rw [found', undestroyed] at once
    cases once
  · intro t o running
    have owes : 0 < s.reserved t (.weak o) := by
      rw [reserved, List.countP_pos_iff]
      exact ⟨.glue o, running, by simp [Frame.owes]⟩
    have holds := owes.trans_le (inv.covered t (.weak o))
    obtain ⟨ob, found⟩ := World.exists_of_held holds
    have found : s.world.objects o = some ob := found
    rw [World.held_weak found] at holds
    exact ⟨ob, found, (inv.queues.object found).not_freed_of_weak holds⟩
  · intro a enabled safe
    exact (inv.act enabled safe).mono fun _ _ => trivial

/-- The handle to 1 is in the value of 0; both are destroyed before the destructor of 0 returns. -/
theorem nested_destructors_safe_inside :
    ∃ (s : Process .w64 (Fin 2) (Fin 2)) (inner outer : Object .w64 (Holder (Fin 2) (Fin 2))),
      s.world.objects 1 = some inner ∧ inner.destroyed = 1 ∧ inner.DestroyedSafely ∧
        s.world.objects 0 = some outer ∧ outer.freed = false := by
  have start : ((processes .w64 (Fin 2) (Fin 2)).restrict Safe).Reachable .initial := .start rfl
  obtain ⟨s, reached, running, inner, found, once⟩ := start.of_replay
    [.new 0, .allocate 0 0, .new 0, .allocate 0 1, .put 0 0 (.brc 1), .drop 0 (.brc 0), .step 0,
      .step 0, .step 0, .step 0, .step 0]
    (fun s => .glue 0 ∈ s.stack 0 ∧ ∃ ob ∈ s.world.objects 1, ob.destroyed = 1) (by decide +kernel)
  obtain ⟨sound, allocated, _⟩ := nested_destructors_safe reached
  obtain ⟨outer, found', unfreed⟩ := allocated 0 0 running
  exact ⟨s, inner, outer, found, once, (sound 1 inner found).1, found', unfreed⟩

/-- However deep destructors are nested and however threads are interleaved, the calls that are
    running need no more steps than `work` says, and none stops before its end without cause. -/
theorem nested_calls_terminate (reached : ((processes pw Tid Oid).restrict Safe).Reachable s)
    {labels : List (Action Tid Oid)}
    (run : Run ((processes pw Tid Oid).restrict fun s a => s.Safe a ∧ a.internal = true) s labels s') :
    labels.length + s'.work ≤ s.work ∧
      ∀ t, s'.stack t = [] ∨ s'.Blocked t ∨
        ∃ a s'', a.internal = true ∧ s'.Safe a ∧ (processes pw Tid Oid).step s' a s'' := by
  have counted : s'.Inv ∧ labels.length + s'.work ≤ s.work := by
    refine run.length_le (P := Inv) (Inv.of_safe_run reached) ?_
    rintro s a s' inv ⟨⟨safe, internal⟩, taken⟩
    obtain ⟨enabled, returned⟩ := processes_step.mp taken
    exact ⟨(inv.act enabled safe).of_ok returned, (inv.work_act enabled safe internal).of_ok returned⟩
  refine ⟨counted.2, ?_⟩
  intro t
  by_cases idle : s'.stack t = []
  · exact .inl idle
  · by_cases blocked : s'.Blocked t
    · exact .inr (.inl blocked)
    · exact .inr (.inr (counted.1.continues idle blocked))

/-- Seven steps drop a handle to an object whose value holds another object. -/
theorem nested_calls_terminate_within_seven :
    ∃ s s' : Process .w64 (Fin 2) (Fin 2), s'.stack 0 = [] ∧ 7 + s'.work ≤ s.work := by
  have start : ((processes .w64 (Fin 2) (Fin 2)).restrict Safe).Reachable .initial := .start rfl
  obtain ⟨s, reached, s', ends, idle⟩ := start.of_replay
    [.new 0, .allocate 0 0, .new 0, .allocate 0 1, .put 0 0 (.brc 1), .drop 0 (.brc 0)]
    (fun s => ∃ s' ∈ replay (guarded (fun (s : Process .w64 (Fin 2) (Fin 2)) a =>
      s.Safe a ∧ a.internal = true) Process.next) s (List.replicate 7 (.step 0)), s'.stack 0 = [])
    (by decide +kernel)
  have run : Run ((processes .w64 (Fin 2) (Fin 2)).restrict fun s a => s.Safe a ∧ a.internal = true) s
      (List.replicate 7 (.step 0)) s' := .of_replay ends
  exact ⟨s, s', idle, (nested_calls_terminate reached run).1⟩

/-- When no call is running and no object waits in a queue, what is not destroyed is reached
    from a handle of a thread or from a cycle, and what is destroyed keeps its memory only for
    weak handles. -/
theorem leaks_only_through_cycles (reached : ((processes pw Tid Oid).restrict Safe).Reachable s)
    (idle : ∀ t, s.stack t = []) (drained : ∀ id, s.world.queueOf id = []) {o ob}
    (found : s.world.objects o = some ob) :
    (ob.destroyed = 0 ∧ Roots.Grounded s.Stores s.Rooted o) ∨
      (ob.destroyed = 1 ∧ s.fields o = [] ∧ (ob.freed = true ↔ ∀ holder, ob.weak holder = 0)) := by
  have inv := Inv.of_safe_run reached
  have sound := inv.queues.object found
  have once := sound.destroyed_le_one
  by_cases undestroyed : ob.destroyed = 0
  · refine .inl ⟨undestroyed, ?_⟩
    exact Roots.grounded_of_inside (fun o alive => inv.entered idle drained alive)
      (⟨ob, found, undestroyed⟩ : s.Alive o)
  · refine .inr ⟨by omega, ?_, ?_⟩
    · by_contra stored
      obtain ⟨ob', found', alive⟩ | ⟨t, running | aborting⟩ := inv.inside o stored
      · rw [found, Option.some.injEq] at found'
        exact undestroyed (found' ▸ alive)
      · simp [idle t] at running
      · simp [idle t] at aborting
    · rw [sound.freed, ← total_eq_zero_iff]
      have count := sound.weakCount
      omega

/-- Two values that hold each other stay when the thread has dropped both. -/
theorem leaks_only_through_cycles_of_two :
    ∃ (s : Process .w64 (Fin 2) (Fin 2)) (ob : Object .w64 (Holder (Fin 2) (Fin 2))),
      s.world.objects 0 = some ob ∧ ob.destroyed = 0 ∧ Roots.Grounded s.Stores s.Rooted 0 := by
  have start : ((processes .w64 (Fin 2) (Fin 2)).restrict Safe).Reachable .initial := .start rfl
  obtain ⟨s, reached, idle, empty, ob, found, alive⟩ := start.of_replay
    [.new 0, .allocate 0 0, .new 0, .allocate 0 1, .cloneNoCollect 0 0, .cloneNoCollect 0 1,
      .put 0 0 (.brc 1), .put 0 1 (.brc 0), .drop 0 (.brc 0), .step 0, .step 0, .drop 0 (.brc 1),
      .step 0, .step 0]
    (fun s => (∀ t, s.stack t = []) ∧
      (∀ slot ∈ s.world.threads, (slot.bind (·.queuedObjects)).getD [] = []) ∧
      ∃ ob ∈ s.world.objects 0, ob.destroyed = 0) (by decide +kernel)
  obtain ⟨_, grounded⟩ | ⟨once, _⟩ :=
    leaks_only_through_cycles reached idle (World.drained_of_threads empty) found
  · exact ⟨s, ob, found, alive, grounded⟩
  · rw [alive] at once
    cases once

end Process

end BiasedRc
