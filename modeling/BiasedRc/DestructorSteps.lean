import BiasedRc.DestructorInvariant

/-! # Every step of nested destructors keeps the invariant

Each step changes one object, one queue or one stack, and the lemmas about these
changes carry the invariant over. Between popping an object from a queue and
merging its counts only the books are kept; the queues are right again once the
counts are merged.
-/

namespace BiasedRc

open Tally Outcome

namespace World

variable {pw : PointerWidth} {Tid Oid : Type} [DecidableEq Tid]
  {w : World pw Tid Oid} {t : Tid}

omit [DecidableEq Tid] in
/-- There is at most one loop to run. -/
theorem processFrames_cases (id : ShortThreadId) :
    w.processFrames id = [] ∨ ∃ loop, w.processFrames id = [.process loop] := by
  rw [processFrames]
  split
  · exact .inl rfl
  · split
    · exact .inr ⟨id, rfl⟩
    · exact .inl rfl

/-- A collection starts with at most the lazy initialization of the thread. -/
theorem startCollect_fst (panicking : Bool) :
    (w.startCollect t panicking).1 = w ∨ (w.startCollect t panicking).1 = (w.withCurrent t).1 := by
  rw [startCollect]
  split
  · refine .inr ?_
    split
    · rfl
    · split
      · rfl
      · split <;> rfl
  · exact .inl rfl

theorem startCollect_snd (panicking : Bool) :
    (w.startCollect t panicking).2 = [] ∨ ∃ id, (w.startCollect t panicking).2 = [.process id] := by
  rw [startCollect]
  split
  · split
    · exact .inl rfl
    · split
      · exact .inl rfl
      · split
        · exact processFrames_cases _
        · exact .inl rfl
  · exact .inl rfl

@[simp] theorem objects_startCollect (panicking : Bool) :
    (w.startCollect t panicking).1.objects = w.objects := by
  obtain same | started := w.startCollect_fst (t := t) panicking
  · rw [same]
  · rw [started, objects_withCurrent]

theorem startCollectForce_fst : (w.startCollectForce t).1 = (w.withCurrent t).1 := by
  rw [startCollectForce]
  split <;> rfl

theorem startCollectForce_snd :
    (w.startCollectForce t).2 = [] ∨ ∃ id, (w.startCollectForce t).2 = [.process id] := by
  rw [startCollectForce]
  split
  · exact .inl rfl
  · exact processFrames_cases _

theorem shortId_withCurrent : (w.withCurrent t).1.shortId t = (w.withCurrent t).2 := by
  simp only [withCurrent]
  split
  · rename_i uninit
    have none : w.shortId t = none := by
      simp only [shortId, LocalThreadStateFast.existingShortId, uninit]
    simp only [initThread]
    split
    · exact none
    · split
      · exact none
      · exact shortId_setFast_self
  · rfl
  · rename_i dying
    simp only [shortId, LocalThreadStateFast.existingShortId, dying]

variable {source target : Tid} {handle : Handle Oid}

variable [DecidableEq Oid]

theorem held_handOver_self (holds : 1 ≤ w.held handle source) :
    (w.handOver source target handle).held handle =
      raise (lower (w.held handle) source) target := by
  obtain ⟨ob, found⟩ := exists_of_held holds
  cases handle with
  | brc o =>
      simp only [Handle.target] at found
      simp only [handOver, found]
      rw [held_brc objects_setObject_self, held_brc found]
  | weak o =>
      simp only [Handle.target] at found
      simp only [handOver, found]
      rw [held_weak objects_setObject_self, held_weak found]

theorem held_handOver_of_ne {other : Handle Oid} (different : other ≠ handle) :
    (w.handOver source target handle).held other = w.held other := by
  cases handle with
  | brc o =>
      simp only [handOver]
      cases found : w.objects o with
      | none => rfl
      | some ob =>
          cases other with
          | brc o' => exact held_setObject_of_ne fun same => different (congrArg _ same)
          | weak o' =>
              by_cases same : o' = o
              · subst same
                rw [held_weak objects_setObject_self, held_weak found]
              · exact held_setObject_of_ne same
  | weak o =>
      simp only [handOver]
      cases found : w.objects o with
      | none => rfl
      | some ob =>
          cases other with
          | weak o' => exact held_setObject_of_ne fun same => different (congrArg _ same)
          | brc o' =>
              by_cases same : o' = o
              · subst same
                rw [held_brc objects_setObject_self, held_brc found]
              · exact held_setObject_of_ne same

/-- Only the counts of the object change, and not what happened to its value. -/
theorem handOver_cases (source target : Tid) (handle : Handle Oid) :
    w.handOver source target handle = w ∨
      ∃ ob ob', w.objects handle.target = some ob ∧ ob'.header = ob.header ∧
        ob'.destroyed = ob.destroyed ∧
          w.handOver source target handle = w.setObject handle.target ob' := by
  cases handle with
  | brc o =>
      simp only [handOver, Handle.target]
      cases w.objects o with
      | none => exact .inl rfl
      | some ob =>
          exact .inr ⟨ob, { ob with strong := raise (lower ob.strong source) target }, rfl, rfl, rfl, rfl⟩
  | weak o =>
      simp only [handOver, Handle.target]
      cases w.objects o with
      | none => exact .inl rfl
      | some ob =>
          exact .inr ⟨ob, { ob with weak := raise (lower ob.weak source) target }, rfl, rfl, rfl, rfl⟩

@[simp] theorem getById_handOver : (w.handOver source target handle).getById = w.getById := by
  obtain same | ⟨ob, ob', _, _, _, moved⟩ := w.handOver_cases source target handle
  · rw [same]
  · rw [moved, getById_setObject]

theorem destroyed_handOver (source target : Tid) (handle : Handle Oid) {o ob} (found : w.objects o = some ob) :
    ∃ ob', (w.handOver source target handle).objects o = some ob' ∧ ob'.destroyed = ob.destroyed := by
  obtain same | ⟨ob₀, ob', found₀, _, same, moved⟩ := w.handOver_cases source target handle
  · exact ⟨ob, by rw [same, found], rfl⟩
  · rw [moved]
    by_cases here : o = handle.target
    · rw [here, found₀, Option.some.injEq] at found
      rw [here, objects_setObject_self]
      exact ⟨ob', rfl, same.trans (congrArg _ found)⟩
    · exact ⟨ob, (objects_setObject_of_ne here).trans found, rfl⟩

end World

theorem QueuesInv.handOver {pw : PointerWidth} {Tid Oid : Type} [DecidableEq Tid] [DecidableEq Oid]
    [Fintype Tid] {w : World pw Tid Oid} {orphaned : ShortThreadId → List Oid} {source target : Tid}
    {handle : Handle Oid} (inv : QueuesInv w orphaned) (holds : 1 ≤ w.held handle source) :
    QueuesInv (w.handOver source target handle) orphaned := by
  obtain ⟨ob, found⟩ := World.exists_of_held holds
  cases handle with
  | brc o =>
      simp only [Handle.target] at found
      rw [World.held_brc found] at holds
      simp only [World.handOver, found]
      exact inv.adjusts found ((inv.object found).send holds).toAdjusts
  | weak o =>
      simp only [Handle.target] at found
      rw [World.held_weak found] at holds
      simp only [World.handOver, found]
      exact inv.adjusts found ((inv.object found).sendWeak holds).toAdjusts

namespace Process

variable {pw : PointerWidth} {Tid Oid : Type} [DecidableEq Oid]

omit [DecidableEq Oid] in
theorem push_push [DecidableEq Tid] {s : Process pw Tid Oid} {t : Tid}
    {inner outer : List (Frame Oid)} :
    (s.push t outer).push t inner = s.push t (inner ++ outer) := by
  simp only [push, setStack, Function.update_self, Function.update_idem, List.append_assoc]

variable {s : Process pw Tid Oid} {t : Tid} {o : Oid}
  {ob ob' : Object pw (Holder Tid Oid)} {handle : Handle Oid} {frame : Frame Oid}
  {frames rest : List (Frame Oid)} {id : ShortThreadId}

theorem has_brc (found : s.world.objects o = some ob) :
    s.has t (.brc o) ↔ s.reserved t (.brc o) < ob.strong (.thread t) := by
  rw [has, World.held_brc found]

theorem has_weak (found : s.world.objects o = some ob) :
    s.has t (.weak o) ↔ s.reserved t (.weak o) < ob.weak (.thread t) := by
  rw [has, World.held_weak found]

/-- The object of a free handle, which the handle is counted for. -/
theorem strong_of_has (has : s.has t (.brc o)) :
    ∃ ob, s.world.objects o = some ob ∧ s.reserved t (.brc o) < ob.strong (.thread t) := by
  obtain ⟨ob, found⟩ := World.exists_of_held (Nat.lt_of_le_of_lt (Nat.zero_le _) has)
  exact ⟨ob, found, (has_brc found).mp has⟩

theorem weak_of_has (has : s.has t (.weak o)) :
    ∃ ob, s.world.objects o = some ob ∧ s.reserved t (.weak o) < ob.weak (.thread t) := by
  obtain ⟨ob, found⟩ := World.exists_of_held (Nat.lt_of_le_of_lt (Nat.zero_le _) has)
  exact ⟨ob, found, (has_weak found).mp has⟩

variable [DecidableEq Tid]

section Covers

variable {calls : Tid → Nat} {counts : Holder Tid Oid → Nat}

theorem covers_raise (covers : ∀ t, calls t ≤ counts (.thread t)) (holder : Holder Tid Oid) (t : Tid) :
    calls t ≤ raise counts holder (.thread t) := (covers t).trans (le_raise ..)

theorem covers_lower (covers : ∀ t, calls t ≤ counts (.thread t)) (spare : calls t < counts (.thread t))
    (t' : Tid) : calls t' ≤ lower counts (.thread t) (.thread t') := by
  by_cases same : t' = t
  · subst same
    rw [lower_self]
    omega
  · rw [lower_of_ne _ (by simpa using same)]
    exact covers t'

end Covers

namespace Accounts

omit [DecidableEq Tid] in
theorem same (books : s.Books) (found : s.world.objects o = some ob) :
    s.Accounts o ob ob.strong ob.weak where
  strong t := World.held_brc found ▸ books.covered t (.brc o)
  weak t := World.held_weak found ▸ books.covered t (.weak o)
  strongStored _ := rfl
  weakStored _ := rfl

variable {brcs weaks : Holder Tid Oid → Nat}

theorem raiseStrong (accounts : s.Accounts o ob brcs weaks) (t : Tid) :
    s.Accounts o ob (raise brcs (.thread t)) weaks where
  strong := covers_raise accounts.strong _
  weak := accounts.weak
  strongStored v := (raise_of_ne _ (by simp)).trans (accounts.strongStored v)
  weakStored := accounts.weakStored

theorem raiseWeak (accounts : s.Accounts o ob brcs weaks) (t : Tid) :
    s.Accounts o ob brcs (raise weaks (.thread t)) where
  strong := accounts.strong
  weak := covers_raise accounts.weak _
  strongStored := accounts.strongStored
  weakStored v := (raise_of_ne _ (by simp)).trans (accounts.weakStored v)

theorem lowerStrong (accounts : s.Accounts o ob brcs weaks)
    (spare : s.reserved t (.brc o) < brcs (.thread t)) :
    s.Accounts o ob (lower brcs (.thread t)) weaks where
  strong := covers_lower accounts.strong spare
  weak := accounts.weak
  strongStored v := (lower_of_ne _ (by simp)).trans (accounts.strongStored v)
  weakStored := accounts.weakStored

theorem lowerWeak (accounts : s.Accounts o ob brcs weaks)
    (spare : s.reserved t (.weak o) < weaks (.thread t)) :
    s.Accounts o ob brcs (lower weaks (.thread t)) where
  strong := accounts.strong
  weak := covers_lower accounts.weak spare
  strongStored := accounts.strongStored
  weakStored v := (lower_of_ne _ (by simp)).trans (accounts.weakStored v)

end Accounts

variable [Fintype Tid] [Fintype Oid]

namespace Inv

omit [DecidableEq Tid] in
theorem sameObjects (inv : s.Inv) {w : World pw (Holder Tid Oid) Oid}
    (queues : QueuesInv w s.orphaned) (outlives : s.world.Outlives w)
    (objects : w.objects = s.world.objects) : (s.setWorld w).Inv :=
  ⟨inv.toBooks.sameObjects outlives objects, queues⟩

theorem withCurrent (inv : s.Inv) (holder : Holder Tid Oid) :
    (s.setWorld (s.world.withCurrent holder).1).Inv :=
  inv.sameObjects inv.queues.withCurrent (World.Outlives.withCurrent s.world holder)
    (World.objects_withCurrent s.world holder)

theorem startCollect (inv : s.Inv) (holder : Holder Tid Oid) (panicking : Bool) :
    (s.setWorld (s.world.startCollect holder panicking).1).Inv := by
  obtain same | started := s.world.startCollect_fst (t := holder) panicking
  · rw [same]
    exact inv
  · rw [started]
    exact inv.withCurrent holder

/-- A call that owns or borrows a handle which no other call of the thread uses. -/
theorem pushOne (inv : s.Inv) (owes : ∀ handle, frame.owes = some handle → s.has t handle)
    (buries : ∀ id, frame ≠ .bury id) : (s.push t [frame]).Inv := by
  refine ⟨inv.toBooks.push ?_ ?_, inv.queues⟩
  · intro handle
    rw [List.countP_singleton]
    by_cases owed : frame.owes = some handle
    · rw [if_pos (by simpa using owed), Nat.add_comm]
      exact owes handle owed
    · rw [if_neg (by simpa using owed), Nat.zero_add]
      exact inv.covered t handle
  · intro id listed
    exact absurd (List.mem_singleton.mp listed).symm (buries id)

theorem pushLoop (inv : s.Inv) (loop : frames = [] ∨ ∃ id, frames = [.process id]) :
    (s.push t frames).Inv := by
  obtain rfl | ⟨id, rfl⟩ := loop
  · rwa [push_nil]
  · exact inv.pushOne (by simp [Frame.owes]) (by simp)

theorem collectThen (inv : s.Inv) {next : Operation Oid}
    (owes : ∀ handle, (Frame.resume next).owes = some handle → s.has t handle) :
    (s.collectThen t next).Inv := by
  have started := inv.startCollect (.thread t) (s.panicking t)
  simp only [Process.collectThen, ← push_push]
  refine (started.pushOne ?_ fun _ => by simp).pushLoop (World.startCollect_snd _)
  intro handle owed
  rw [has, setWorld, World.held_congr (congrFun (World.objects_startCollect _) _)]
  exact owes handle owed

theorem pop (inv : s.Inv) (top : s.stack t = frame :: rest)
    (glue : ∀ o, frame = .glue o → s.fields o = []) (aborts : frame ≠ .aborts)
    (bury : ∀ id, frame = .bury id → s.orphaned id = []) : (s.setStack t rest).Inv :=
  ⟨inv.toBooks.pop top glue aborts bury, inv.queues⟩

omit [DecidableEq Tid] in
theorem setPanicking (inv : s.Inv) (panicking : Tid → Bool) :
    Inv { s with panicking := panicking } :=
  ⟨⟨inv.covered, inv.stored, inv.inside, inv.buried, inv.orphans⟩, inv.queues⟩

omit [DecidableEq Tid] in
/-- A change of the counts that takes no strong handle away. -/
theorem adjusts (inv : s.Inv) (found : s.world.objects o = some ob) {brcs weaks}
    (next : ob.Adjusts brcs weaks ob') (more : total ob.strong ≤ total brcs)
    (accounts : s.Accounts o ob brcs weaks) : (s.setObject o ob').Inv := by
  refine ⟨inv.toBooks.setObject found ?_ ?_, inv.queues.adjusts found next⟩
  · rw [next.strong, next.weak]
    exact accounts
  · exact fun undestroyed => (inv.queues.object found).undestroyed_of_adjusts undestroyed next more

omit [DecidableEq Tid] in
theorem onObject (inv : s.Inv) (found : s.world.objects o = some ob) (allocated : ob.freed = false)
    {op brcs weaks} {permitted : Fault → Prop} (h : Yields permitted (ob.Adjusts brcs weaks) (op ob))
    (more : total ob.strong ≤ total brcs) (accounts : s.Accounts o ob brcs weaks) :
    Yields permitted Inv (s.onObject o op) := by
  have stored : Yields permitted (fun w => (s.setWorld w).Inv) (s.world.onObject o op) := by
    rw [World.onObject, World.deref_eq_ok.mpr ⟨found, allocated⟩]
    exact h.bind fun ob' next => inv.adjusts found next more accounts
  exact stored.bind fun w inv' => inv'

omit [DecidableEq Tid] in
/-- The object behind a handle that a call may use. -/
theorem behind_brc (inv : s.Inv) (spare : s.has t (.brc o)) :
    ∃ ob, s.world.objects o = some ob ∧ ObjectInv ob ∧ 1 ≤ ob.strong (.thread t) ∧
      s.reserved t (.brc o) < ob.strong (.thread t) := by
  obtain ⟨ob, found, free⟩ := strong_of_has spare
  exact ⟨ob, found, inv.queues.object found, by omega, free⟩

omit [DecidableEq Tid] in
theorem behind_weak (inv : s.Inv) (spare : s.has t (.weak o)) :
    ∃ ob, s.world.objects o = some ob ∧ ObjectInv ob ∧ 1 ≤ ob.weak (.thread t) ∧
      s.reserved t (.weak o) < ob.weak (.thread t) := by
  obtain ⟨ob, found, free⟩ := weak_of_has spare
  exact ⟨ob, found, inv.queues.object found, by omega, free⟩

end Inv

/-- The counts are merged and the object leaves its queue with them. -/
theorem Books.explicitMerge (books : s.Books) (found : s.world.objects o = some ob)
    (sound : ObjectInv ob) (waits : ob.awaits id)
    (queues : ∀ {ob' weak}, ob.Settles weak ob' → QueuesInv (s.world.setObject o ob') s.orphaned) :
    Yields Fault.Overflow Inv (s.explicitMerge t id o) := by
  have accounts : s.Accounts o ob ob.strong ob.weak := .same books found
  rw [Process.explicitMerge, World.deref_eq_ok.mpr ⟨found, sound.not_freed_of_unmerged waits.1⟩]
  refine ((sound.mergeCounts (t := .thread t) waits).weaken fun _ permitted => permitted.1).bind ?_
  rintro ⟨ob', dead⟩ merges
  cases dead with
  | true =>
      have strong : ob'.strong = ob.strong := merges.strong
      refine ⟨books.destroy found merges.weak ?_ ?_, queues merges⟩
      · rw [strong]
        exact accounts.strong
      · intro v
        rw [strong]
  | false =>
      obtain ⟨settles, undestroyed⟩ := merges
      refine ⟨books.setObject found ?_ fun _ => undestroyed, queues settles⟩
      rw [settles.strong, settles.weak]
      exact accounts

namespace Inv

/-- A drop that won the right to queue the object. -/
theorem decrementSharedDoQueue (inv : s.Inv) (found : s.world.objects o = some ob)
    (spare : s.has t (.brc o)) (won : ob.Won (lower ob.strong (.thread t)) ob') :
    Yields Fault.Overflow Inv (s.decrementSharedDoQueue t o ob') := by
  obtain ⟨id, owner, _, _⟩ := won.inv.owned won.unmerged
  obtain ⟨info, listed⟩ :=
    Option.isSome_iff_exists.mp (inv.queues.registered found (won.biased ▸ owner))
  have undestroyed := won.inv.unmerged_undestroyed won.unmerged
  have accounts : s.Accounts o ob ob'.strong ob'.weak := by
    rw [won.strong, won.weak]
    exact (Accounts.same inv.toBooks found).lowerStrong ((has_brc found).mp spare)
  simp only [Process.decrementSharedDoQueue, owner, listed]
  cases queued : info.queuedObjects with
  | some queue =>
      have pushed : (s.setObject o { ob' with pushed := ob'.pushed + 1 }).Books :=
        inv.toBooks.setObject found accounts fun _ => undestroyed
      have known : (s.world.getById id).isSome := by rw [listed]; rfl
      refine ⟨pushed.sameObjects (.setInfo (by exact known) ?_) rfl,
        inv.queues.push found won (won.biased ▸ owner) listed queued⟩
      intro live
      have flag := inv.queues.flag listed
      have isLive : s.world.liveId id = true := by
        rw [World.liveId, listed, Option.any_some, ← flag, queued]
        rfl
      exact isLive
  | none =>
      have dead : info.stateFlag.isLive = false := by rw [← inv.queues.flag listed, queued]; rfl
      simp only [dead, Bool.false_eq_true, if_false]
      have stored : (s.setObject o ob').Books := inv.toBooks.setObject found accounts fun _ => undestroyed
      have guarded : ((s.setObject o ob').push t [.noUnwind]).Books := by
        refine stored.push ?_ (by simp)
        intro handle
        simpa [Frame.owes] using stored.covered t handle
      refine guarded.explicitMerge World.objects_setObject_self won.inv
        ⟨won.unmerged, won.queued, owner⟩ ?_
      intro ob'' weak settles
      have merged := inv.queues.mergeInPlace found won.unqueued settles
      rwa [← World.setObject_setObject] at merged

theorem release (inv : s.Inv) (spare : s.has t (.brc o)) (safe : s.world.DropSafe (.thread t) o) :
    Yields Fault.Overflow Inv (s.release t o) := by
  obtain ⟨ob, found, sound, holds, free⟩ := inv.behind_brc spare
  have accounts : s.Accounts o ob (lower ob.strong (.thread t)) ob.weak :=
    (Accounts.same inv.toBooks found).lowerStrong free
  rw [Process.release, World.deref_eq_ok.mpr ⟨found, sound.not_freed_of_strong holds⟩]
  refine ((sound.releaseStrong holds (safe ob found)).weaken nofun).bind ?_
  rintro ⟨ob', released⟩ result
  cases released with
  | kept =>
      obtain ⟨next, undestroyed⟩ := result
      refine ⟨inv.toBooks.setObject found ?_ fun _ => undestroyed,
        inv.queues.adjusts found next.toAdjusts⟩
      rw [next.strong, next.weak]
      exact accounts
  | dead =>
      have strong : ob'.strong = lower ob.strong (.thread t) := result.strong
      refine ⟨inv.toBooks.destroy found result.weak ?_ ?_, inv.queues.adjusts found result.toAdjusts⟩
      · rw [strong]
        exact accounts.strong
      · rw [strong]
        exact accounts.strongStored
  | won => exact inv.decrementSharedDoQueue found spare result

theorem clone (inv : s.Inv) (spare : s.has t (.brc o)) (safe : s.world.CloneSafe (.thread t) o) :
    Yields Fault.Overflow Inv (s.operate t (.clone o)) := by
  obtain ⟨ob, found, sound, holds, free⟩ := inv.behind_brc spare
  have held := holds.trans (le_total ob.strong _)
  refine inv.onObject found (sound.not_freed_of_strong holds)
    ((sound.incrementStrong held (safe ob found)).mono fun _ next => next.toAdjusts) ?_
    ((Accounts.same inv.toBooks found).raiseStrong t)
  rw [total_raise]
  omega

theorem operate (inv : s.Inv) {next : Operation Oid}
    (owes : ∀ handle, (Frame.resume next).owes = some handle → s.has t handle)
    (clones : ∀ o, next = .clone o → s.world.CloneSafe (.thread t) o)
    (drops : ∀ o, next = .release o → s.world.DropSafe (.thread t) o) :
    Yields Fault.Overflow Inv (s.operate t next) := by
  cases next with
  | nothing => exact inv
  | alloc => exact inv
  | clone o => exact inv.clone (owes _ rfl) (clones o rfl)
  | release o => exact inv.release (owes _ rfl) (drops o rfl)

theorem cloneShared (inv : s.Inv) (spare : s.has t (.brc o)) (safe : s.world.CloneSharedSafe o) :
    Yields Fault.Overflow Inv (s.onObject o fun ob => ob.incrementStrongShared (.thread t)) := by
  obtain ⟨ob, found, sound, holds, free⟩ := inv.behind_brc spare
  have held := holds.trans (le_total ob.strong _)
  refine inv.onObject found (sound.not_freed_of_strong holds)
    ((sound.incrementStrongShared held (safe ob found)).mono fun _ next => next.toAdjusts) ?_
    ((Accounts.same inv.toBooks found).raiseStrong t)
  rw [total_raise]
  omega

theorem downgrade (inv : s.Inv) (spare : s.has t (.brc o)) :
    Yields Fault.Overflow Inv (s.onObject o fun ob => ob.downgrade (.thread t)) := by
  obtain ⟨ob, found, sound, holds, free⟩ := inv.behind_brc spare
  exact inv.onObject found (sound.not_freed_of_strong holds)
    ((sound.downgrade holds).mono fun _ next => next.toAdjusts) le_rfl
    ((Accounts.same inv.toBooks found).raiseWeak t)

theorem cloneWeak (inv : s.Inv) (spare : s.has t (.weak o)) :
    Yields Fault.Overflow Inv (s.onObject o fun ob => ob.cloneWeak (.thread t)) := by
  obtain ⟨ob, found, sound, holds, free⟩ := inv.behind_weak spare
  exact inv.onObject found (sound.not_freed_of_weak holds)
    ((sound.cloneWeak holds).mono fun _ next => next.toAdjusts) le_rfl
    ((Accounts.same inv.toBooks found).raiseWeak t)

theorem releaseWeak (inv : s.Inv) (spare : s.has t (.weak o)) :
    Yields Fault.Overflow Inv (s.onObject o fun ob => .ok (ob.releaseWeak (.thread t))) := by
  obtain ⟨ob, found, sound, holds, free⟩ := inv.behind_weak spare
  exact inv.onObject found (sound.not_freed_of_weak holds) (sound.releaseWeak holds).toAdjusts le_rfl
    ((Accounts.same inv.toBooks found).lowerWeak free)

end Inv

namespace Books

omit [DecidableEq Tid] [Fintype Tid] [Fintype Oid] in
theorem setOrphaned (books : s.Books) {queue : List Oid}
    (waits : queue ≠ [] → ∃ t, .bury id ∈ s.stack t ∨ .aborts ∈ s.stack t) :
    (s.setOrphaned id queue).Books where
  covered := books.covered
  stored := books.stored
  inside := books.inside
  buried := books.buried
  orphans := by
    intro id' left
    by_cases same : id' = id
    · subst same
      rw [orphaned_setOrphaned_self] at left
      exact waits left
    · rw [orphaned_setOrphaned_of_ne same] at left
      exact books.orphans id' left

variable {source target : Holder Tid Oid}

omit [Fintype Tid] [Fintype Oid] in
/-- A handle moves between a thread and a value, or between two threads. -/
theorem handOver (books : s.Books) {fields : Oid → List (Handle Oid)}
    (holds : 1 ≤ s.world.held handle source) (spare : ∀ t, source = .thread t → s.has t handle)
    (stored : ∀ v other, (fields v).count other =
      (s.world.handOver source target handle).held other (.value v))
    (inside : ∀ v, fields v ≠ [] → s.fields v ≠ [] ∨ s.Alive v ∨ ∃ t, .glue v ∈ s.stack t) :
    Books { s with world := s.world.handOver source target handle, fields := fields } where
  covered := by
    intro t other
    by_cases same : other = handle
    · subst same
      have lowered : ∀ t, s.reserved t other ≤ lower (s.world.held other) source (.thread t) := by
        intro t
        cases source with
        | thread owner => exact covers_lower (fun t => books.covered t other) (spare owner rfl) t
        | value v =>
            rw [lower_of_ne _ (by simp)]
            exact books.covered t other
      rw [World.held_handOver_self holds]
      exact covers_raise lowered target t
    · rw [World.held_handOver_of_ne same]
      exact books.covered t other
  stored := stored
  inside := by
    have keep : ∀ v, s.Alive v → ∃ ob, (s.world.handOver source target handle).objects v = some ob ∧
        ob.destroyed = 0 := by
      rintro v ⟨ob, found, undestroyed⟩
      obtain ⟨ob', found', same⟩ := World.destroyed_handOver source target handle found
      exact ⟨ob', found', same.trans undestroyed⟩
    intro v nonempty
    obtain before | alive | ⟨t, running⟩ := inside v nonempty
    · exact (books.inside v before).imp (keep v) id
    · exact .inl (keep v alive)
    · exact .inr ⟨t, .inl running⟩
  buried := by
    intro t id running
    rw [World.liveId, World.getById_handOver]
    exact books.buried t id running
  orphans := books.orphans

end Books

namespace Inv

/-- A handle is taken out of a value. -/
theorem take (inv : s.Inv) {others : List (Handle Oid)} (t : Tid)
    (stored : (s.fields o).Perm (handle :: others)) :
    Inv ((s.setFields o others).setWorld (s.world.handOver (.value o) (.thread t) handle)) ∧
      ((s.setFields o others).setWorld (s.world.handOver (.value o) (.thread t) handle)).has t handle := by
  have kept := inv.stored o handle
  rw [stored.count_eq, List.count_cons_self] at kept
  have holds : 1 ≤ s.world.held handle (.value o) := by omega
  refine ⟨⟨inv.toBooks.handOver holds nofun ?_ ?_, inv.queues.handOver holds⟩, ?_⟩
  · intro v other
    have before := inv.stored v other
    by_cases same : other = handle
    · subst same
      rw [World.held_handOver_self holds, raise_of_ne _ (by simp)]
      by_cases here : v = o
      · subst here
        rw [fields_setFields_self, lower_self]
        omega
      · rw [fields_setFields_of_ne here, lower_of_ne _ (by simpa using here)]
        exact before
    · rw [World.held_handOver_of_ne same]
      by_cases here : v = o
      · subst here
        rw [stored.count_eq, List.count_cons_of_ne (Ne.symm same)] at before
        rw [fields_setFields_self]
        exact before
      · rw [fields_setFields_of_ne here]
        exact before
  · intro v nonempty
    refine .inl ?_
    by_cases here : v = o
    · subst here
      rintro empty
      rw [empty] at stored
      exact List.cons_ne_nil _ _ stored.nil_eq.symm
    · rwa [fields_setFields_of_ne here] at nonempty
  · have covered := inv.covered t handle
    change _ < (s.world.handOver (.value o) (.thread t) handle).held handle (.thread t)
    rw [World.held_handOver_self holds, raise_self, lower_of_ne _ (by simp)]
    exact Nat.lt_succ_of_le covered

omit [DecidableEq Tid] in
theorem reached (inv : s.Inv) (reaches : s.reaches t o) : s.Alive o ∨ ∃ t, .glue o ∈ s.stack t := by
  obtain has | running := reaches
  · obtain ⟨ob, found, sound, holds, _⟩ := inv.behind_brc has
    exact .inl ⟨ob, found, sound.held_undestroyed (holds.trans (le_total ob.strong _))⟩
  · exact .inr ⟨t, List.mem_of_mem_head? running⟩

/-- A handle is stored in a value. -/
theorem put (inv : s.Inv) (reaches : s.reaches t o) (spare : s.has t handle) :
    Inv ((s.setFields o (s.fields o ++ [handle])).setWorld
      (s.world.handOver (.thread t) (.value o) handle)) := by
  have holds : 1 ≤ s.world.held handle (.thread t) := Nat.one_le_of_lt spare
  refine ⟨inv.toBooks.handOver holds ?_ ?_ ?_, inv.queues.handOver holds⟩
  · rintro _ ⟨⟩
    exact spare
  · intro v other
    have before := inv.stored v other
    by_cases same : other = handle
    · subst same
      rw [World.held_handOver_self holds]
      by_cases here : v = o
      · subst here
        rw [fields_setFields_self, raise_self, lower_of_ne _ (by simp), List.count_append,
          List.count_singleton_self, before]
      · rw [fields_setFields_of_ne here, raise_of_ne _ (by simpa using here), lower_of_ne _ (by simp)]
        exact before
    · rw [World.held_handOver_of_ne same]
      by_cases here : v = o
      · subst here
        rw [fields_setFields_self, List.count_append, before]
        simp [Ne.symm same]
      · rw [fields_setFields_of_ne here]
        exact before
  · intro v nonempty
    by_cases here : v = o
    · exact .inr (here ▸ inv.reached reaches)
    · rw [fields_setFields_of_ne here] at nonempty
      exact .inl nonempty

theorem send (inv : s.Inv) {source target : Tid} (spare : s.has source handle) :
    (s.setWorld (s.world.handOver (.thread source) (.thread target) handle)).Inv := by
  have holds : 1 ≤ s.world.held handle (.thread source) := Nat.one_le_of_lt spare
  refine ⟨inv.toBooks.handOver holds ?_ ?_ fun v nonempty => .inl nonempty, inv.queues.handOver holds⟩
  · rintro _ ⟨⟩
    exact spare
  · intro v other
    rw [inv.stored]
    by_cases same : other = handle
    · rw [same, World.held_handOver_self holds, raise_of_ne _ (by simp), lower_of_ne _ (by simp)]
    · rw [World.held_handOver_of_ne same]

/-- One round of the loop over a queue. -/
theorem processNext (inv : s.Inv) (top : s.stack t = .process id :: rest) :
    Yields Fault.Overflow Inv (s.processNext t id rest) := by
  have returned : (s.setStack t rest).Inv :=
    inv.pop top (fun _ => by simp) (by simp) fun _ => by simp
  simp only [Process.processNext]
  cases listed : s.world.getById id with
  | none => exact returned
  | some info =>
      obtain ⟨flag, queue⟩ := info
      have known : (s.world.getById id).isSome := by rw [listed]; rfl
      have flagged := inv.queues.flag listed
      have live : flag.isLive = s.world.liveId id := by rw [World.liveId, listed, Option.any_some]
      cases queue with
      | none => exact returned
      | some queue =>
          cases queue with
          | nil =>
              have marked : flag.markLive.isLive = flag.isLive := by cases flag <;> rfl
              have queues : QueuesInv (s.world.setInfo id ⟨flag.markLive, some []⟩) s.orphaned := by
                refine inv.queues.setInfo known (flagged.trans marked.symm) (marked.trans live) ?_
                rw [World.queueOf, listed]
                rfl
              have outlives : s.world.Outlives (s.world.setInfo id ⟨flag.markLive, some []⟩) :=
                .setInfo known fun isLive => live ▸ marked ▸ isLive
              have looping : (s.setWorld (s.world.setInfo id ⟨flag.markLive, some []⟩)).stack t =
                  .process id :: rest := top
              exact (inv.sameObjects queues outlives rfl).pop looping (fun _ => by simp) (by simp)
                fun _ => by simp
          | cons o queue =>
              have popped : (s.setWorld (s.world.setInfo id ⟨flag, some queue⟩)).Books :=
                inv.toBooks.sameObjects (.setInfo known fun isLive => live ▸ isLive) rfl
              have listedHere : o ∈ s.world.queueOf id ++ s.orphaned id := by
                rw [World.queueOf, listed]
                exact List.mem_append_left _ List.mem_cons_self
              obtain ⟨ob, found, waits⟩ := inv.queues.waiting listedHere
              exact popped.explicitMerge found (inv.queues.object found) waits
                fun settles => inv.queues.pop listed found settles

/-- One round of the loop over a queue that is dropped. -/
theorem buryNext (inv : s.Inv) (top : s.stack t = .bury id :: rest) :
    Yields Fault.Overflow Inv (s.buryNext t id rest) := by
  obtain ⟨known, dead⟩ := inv.buried t id (top ▸ List.mem_cons_self)
  simp only [Process.buryNext]
  cases left : s.orphaned id with
  | nil =>
      have queues : QueuesInv (s.world.setInfo id ⟨.dead, none⟩) s.orphaned := by
        refine inv.queues.setInfo known rfl dead.symm ?_
        obtain ⟨info, listed⟩ := Option.isSome_iff_exists.mp known
        have flagged := inv.queues.flag listed
        rw [World.liveId, listed, Option.any_some] at dead
        rw [dead, Option.isSome_eq_false_iff, Option.isNone_iff_eq_none] at flagged
        rw [World.queueOf, listed, Option.bind_some, flagged]
      have looping : (s.setWorld (s.world.setInfo id ⟨.dead, none⟩)).stack t = .bury id :: rest := top
      have outlives : s.world.Outlives (s.world.setInfo id ⟨.dead, none⟩) :=
        .setInfo known (by rintro ⟨⟩)
      refine (inv.sameObjects queues outlives rfl).pop looping (fun _ => by simp) (by simp) ?_
      rintro _ ⟨⟩
      exact left
  | cons o queue =>
      have popped : (s.setOrphaned id queue).Books :=
        inv.toBooks.setOrphaned fun _ => inv.orphans id (by simp [left])
      have listed : o ∈ s.world.queueOf id ++ s.orphaned id := by
        rw [left]
        exact List.mem_append_right _ List.mem_cons_self
      obtain ⟨ob, found, waits⟩ := inv.queues.waiting listed
      exact popped.explicitMerge found (inv.queues.object found) waits
        fun settles => inv.queues.popOrphan left found settles

/-- The thread gives its id up before its queue is dropped. -/
theorem exit (inv : s.Inv) (t : Tid) : (s.exit t).Inv := by
  rw [Process.exit]
  cases owned : s.world.shortId (.thread t) with
  | none => exact inv
  | some id =>
      obtain ⟨info, listed, _⟩ :=
        World.exists_of_liveId ((inv.queues.active id).mpr ⟨.thread t, owned⟩)
      have known : (s.world.getById id).isSome := by rw [listed]; rfl
      simp only [listed]
      have outlives : s.world.Outlives
          ((s.world.setFast (.thread t) ⟨.deadOrDying, none⟩).setInfo id ⟨.dying, none⟩) :=
        World.Outlives.setInfo (w := s.world.setFast (.thread t) ⟨.deadOrDying, none⟩) known nofun
      have dying := inv.toBooks.sameObjects outlives rfl
      have buried : ((s.setWorld ((s.world.setFast (.thread t) ⟨.deadOrDying, none⟩).setInfo id
          ⟨.dying, none⟩)).push t [.bury id]).Books := by
        refine dying.push ?_ ?_
        · intro handle
          simpa [Frame.owes] using dying.covered t handle
        · intro id' listed'
          obtain rfl : id' = id := by simpa using listed'
          refine ⟨?_, World.liveId_setInfo_self (by exact known)⟩
          rw [setWorld, World.getById_setInfo_self (by exact known)]
          rfl
      refine ⟨buried.setOrphaned fun _ => ⟨t, .inl ?_⟩, inv.queues.exit owned listed⟩
      rw [stack_push_self]
      exact List.mem_cons_self

/-- The new object is known to its creator only. -/
theorem allocate (inv : s.Inv) (free : s.world.objects o = none) :
    (s.setWorld (s.world.allocate (.thread t) o)).Inv := by
  have started := inv.withCurrent (.thread t)
  have objects : (s.world.withCurrent (.thread t)).1.objects = s.world.objects :=
    World.objects_withCurrent ..
  have nobody : ∀ {handle : Handle Oid}, handle.target = o → ∀ holder, s.world.held handle holder = 0 := by
    rintro handle rfl holder
    by_contra some
    obtain ⟨ob, found⟩ := World.exists_of_held (Nat.pos_of_ne_zero some)
    rw [free] at found
    cases found
  have held : ∀ v handle, (s.world.allocate (.thread t) o).held handle (.value v) =
      s.world.held handle (.value v) := by
    intro v handle
    by_cases same : handle.target = o
    · rw [nobody same]
      cases handle with
      | brc o' =>
          obtain rfl : o' = o := same
          have unstored : raise (fun _ => 0) (.thread t) (.value v : Holder Tid Oid) = 0 :=
            raise_of_ne _ (by simp)
          rw [World.allocate, World.held_brc World.objects_setObject_self]
          exact unstored
      | weak o' =>
          obtain rfl : o' = o := same
          rw [World.allocate, World.held_weak World.objects_setObject_self]
          rfl
    · rw [World.allocate, World.held_setObject_of_ne same, World.held_congr (congrFun objects _)]
  refine ⟨inv.toBooks.setWorld ?_ ?_ held ?_, ?_⟩
  · exact World.Outlives.withCurrent s.world (.thread t)
  · intro t' handle
    by_cases same : handle.target = o
    · have none := inv.covered t' handle
      rw [nobody same] at none
      exact none.trans (Nat.zero_le _)
    · rw [World.allocate, World.held_setObject_of_ne same, World.held_congr (congrFun objects _)]
      exact inv.covered t' handle
  · rintro o' ⟨ob, found, undestroyed⟩
    have other : o' ≠ o := by
      rintro rfl
      rw [free] at found
      cases found
    refine ⟨ob, ?_, undestroyed⟩
    rw [setWorld, World.allocate, World.objects_setObject_of_ne other, objects, found]
  · refine started.queues.setObject (ObjectInv.new _ _) ?_ ?_
    · intro id
      simp only [Object.not_awaits_of_unqueued (Object.new_unqueued ..), false_iff]
      rw [setWorld, objects, free]
      simp
    · intro id owned
      rw [Object.new_owner, ← World.shortId_withCurrent] at owned
      exact World.getById_of_liveId ((started.queues.active id).mpr ⟨_, owned⟩)

end Inv

end Process

namespace Frame

variable {Oid : Type} {frame : Frame Oid} {frames : List (Frame Oid)}

theorem mem_of_mem_unwind (running : frame ∈ unwind frames) :
    frame ∈ frames ∨ frame = .aborts ∨ frame = .caught := by
  fun_induction unwind frames with
  | case1 => simp_all
  | case2 handle rest ih | case3 o rest ih =>
      obtain rfl | later := List.mem_cons.mp running
      · exact .inl List.mem_cons_self
      · exact (ih later).imp_left (List.mem_cons_of_mem _)
  | case4 id rest ih => exact (ih running).imp_left (List.mem_cons_of_mem _)
  | case5 rest => exact .inl running
  | _ => exact .inr (.inl (List.mem_singleton.mp running))

/-- Unwinding drops no destructor and no dying queue, except by an abort. -/
theorem mem_unwind (running : frame ∈ frames) (loops : ∀ id, frame ≠ .process id) :
    frame ∈ unwind frames ∨ .aborts ∈ unwind frames := by
  fun_induction unwind frames with
  | case1 => cases running
  | case2 handle rest ih | case3 o rest ih =>
      obtain rfl | later := List.mem_cons.mp running
      · exact .inl List.mem_cons_self
      · exact (ih later).imp (List.mem_cons_of_mem _) (List.mem_cons_of_mem _)
  | case4 id rest ih =>
      obtain rfl | later := List.mem_cons.mp running
      · exact absurd rfl (loops id)
      · exact ih later
  | case5 rest => exact .inl running
  | _ => exact .inr (List.mem_singleton.mpr rfl)

variable [DecidableEq Oid]

theorem countP_unwind (handle : Handle Oid) :
    ((unwind frames).countP fun frame => frame.owes = some handle) ≤
      frames.countP fun frame => frame.owes = some handle := by
  fun_induction unwind frames with
  | case1 => simp [owes]
  | case2 _ rest ih | case3 _ rest ih =>
      simp only [List.countP_cons]
      omega
  | case4 id rest ih =>
      rw [List.countP_cons]
      omega
  | case5 rest => exact le_rfl
  | _ => simp [owes]

end Frame

namespace Process

variable {pw : PointerWidth} {Tid Oid : Type} [DecidableEq Tid] [DecidableEq Oid] [Fintype Tid]
  [Fintype Oid] {s : Process pw Tid Oid} {t : Tid} {o : Oid} {a : Action Tid Oid}

/-- Neither of the two operations that lose count of references is next. -/
def Safe (s : Process pw Tid Oid) : Action Tid Oid → Prop
  | .cloneNoCollect t o => s.world.CloneSafe (.thread t) o
  | .cloneShared _ o => s.world.CloneSharedSafe o
  | .step t =>
      match (s.stack t).head? with
      | some (.resume (.clone o)) => s.world.CloneSafe (.thread t) o
      | some (.resume (.release o)) => s.world.DropSafe (.thread t) o
      | _ => True
  | _ => True

instance (s : Process pw Tid Oid) (a : Action Tid Oid) : Decidable (s.Safe a) :=
  match a with
  | .cloneNoCollect t o => inferInstanceAs (Decidable (s.world.CloneSafe (.thread t) o))
  | .cloneShared _ o => inferInstanceAs (Decidable (s.world.CloneSharedSafe o))
  | .step t =>
      match head : (s.stack t).head? with
      | some (.resume (.clone o)) =>
          decidable_of_iff (s.world.CloneSafe (.thread t) o) (by simp [Safe, head])
      | some (.resume (.release o)) =>
          decidable_of_iff (s.world.DropSafe (.thread t) o) (by simp [Safe, head])
      | some (.resume .nothing) | some (.resume .alloc) | some (.drop _) | some (.glue _)
      | some (.process _) | some (.bury _) | some .noUnwind | some .caught | some .aborts | none =>
          .isTrue (by simp [Safe, head])
  | .new _ | .allocate _ _ | .clone _ _ | .drop _ _ | .dropNoCollect _ _ | .upgrade _ _
  | .downgrade _ _ | .cloneWeak _ _ | .collect _ | .collectNounwind _ | .collectForce _
  | .put _ _ _ | .take _ _ _ | .send _ _ _ | .panic _ | .exit _ => .isTrue trivial

namespace Inv

/-- A destructor panics. -/
theorem panic (inv : s.Inv) (t : Tid) : (s.setStack t (Frame.unwind (s.stack t))).Inv := by
  refine ⟨inv.toBooks.setStack ⟨?_, ?_, ?_⟩ ?_ ?_, inv.queues⟩
  · intro o running
    exact (Frame.mem_unwind running (by simp)).imp_right .inl
  · intro aborting
    exact (Frame.mem_unwind aborting (by simp)).elim id id
  · intro id running
    exact (Frame.mem_unwind running (by simp)).imp_right .inl
  · exact fun handle => (Frame.countP_unwind handle).trans (inv.covered t handle)
  · intro id running
    obtain before | impossible | impossible := Frame.mem_of_mem_unwind running
    · exact inv.buried t id before
    · cases impossible
    · cases impossible

theorem upgrade (inv : s.Inv) (spare : s.has t (.weak o)) :
    Yields Fault.Overflow Inv (s.act (.upgrade t o)) := by
  obtain ⟨ob, found, sound, holds, free⟩ := inv.behind_weak spare
  have accounts := Accounts.same inv.toBooks found
  have upgraded : Yields Fault.Overflow (fun ob' => (s.setObject o ob').Inv) (do
      return (← ob.incrementStrongUnlessZero (.thread t) (s.world.shortId (.thread t))).1) := by
    refine sound.incrementStrongUnlessZero.bind ?_
    rintro ⟨ob', succeeded⟩ ⟨_, next⟩
    cases succeeded with
    | false => exact inv.adjusts found next le_rfl accounts
    | true =>
        refine inv.adjusts found next ?_ (accounts.raiseStrong t)
        rw [if_pos rfl, total_raise]
        omega
  have stored : Yields Fault.Overflow (fun w => (s.setWorld w).Inv) (s.world.onObject o fun ob => do
      return (← ob.incrementStrongUnlessZero (.thread t) (s.world.shortId (.thread t))).1) := by
    rw [World.onObject, World.deref_eq_ok.mpr ⟨found, sound.not_freed_of_weak holds⟩]
    exact upgraded.bind fun _ inv' => inv'
  exact stored.bind fun w inv' => inv'

/-- The innermost call of a thread takes its next step. -/
theorem step (inv : s.Inv) (safe : s.Safe (.step t)) : Yields Fault.Overflow Inv (s.step t) := by
  rw [Process.step]
  rw [Safe] at safe
  cases stack : s.stack t with
  | nil => exact inv
  | cons frame rest =>
      rw [stack] at safe
      have spare : ∀ handle, frame.owes = some handle → (s.setStack t rest).has t handle :=
        fun handle owes => inv.toBooks.has_pop stack owes
      cases frame with
      | aborts => exact inv
      | drop handle =>
          have popped : (s.setStack t rest).Inv :=
            inv.pop stack (fun _ => by simp) (by simp) fun _ => by simp
          cases handle with
          | brc o =>
              refine popped.collectThen ?_
              rintro _ ⟨⟩
              exact spare _ rfl
          | weak o => exact popped.releaseWeak (spare _ rfl)
      | glue o =>
          cases fields : s.fields o with
          | nil =>
              simp only [fields]
              have popped : (s.setStack t rest).Inv := by
                refine inv.pop stack ?_ (by simp) fun _ => by simp
                rintro _ ⟨⟩
                exact fields
              exact popped.releaseWeak (spare _ rfl)
          | cons handle others =>
              simp only [fields]
              obtain ⟨taken, free⟩ := inv.take t (.of_eq fields)
              refine taken.pushOne ?_ fun _ => by simp
              rintro _ ⟨⟩
              exact free
      | resume next =>
          have popped : (s.setStack t rest).Inv :=
            inv.pop stack (fun _ => by simp) (by simp) fun _ => by simp
          refine popped.operate spare ?_ ?_
          · rintro o rfl
            exact safe
          · rintro o rfl
            exact safe
      | process id => exact inv.processNext stack
      | bury id => exact inv.buryNext stack
      | noUnwind => exact inv.pop stack (fun _ => by simp) (by simp) fun _ => by simp
      | caught =>
          exact (inv.pop stack (fun _ => by simp) (by simp) fun _ => by simp).setPanicking _

/-- Every enabled action that meets the conditions. -/
theorem act (inv : s.Inv) (enabled : s.enabled a) (safe : s.Safe a) :
    Yields Fault.Overflow Inv (s.act a) := by
  cases a with
  | new t =>
      exact inv.collectThen (by simp [Frame.owes])
  | allocate t o =>
      obtain ⟨waits, free⟩ := enabled
      obtain ⟨rest, stack⟩ := List.head?_eq_some_iff.mp waits
      have popped : (s.setStack t rest).Inv :=
        inv.pop stack (fun _ => by simp) (by simp) fun _ => by simp
      have tail : (s.stack t).tail = rest := by rw [stack, List.tail_cons]
      rw [← tail] at popped
      exact popped.allocate free
  | clone t o =>
      refine inv.collectThen ?_
      rintro _ ⟨⟩
      exact enabled.2
  | cloneNoCollect t o => exact inv.clone enabled.2 safe
  | cloneShared t o => exact inv.cloneShared enabled.2 safe
  | drop t handle =>
      refine inv.pushOne ?_ fun _ => by simp
      rintro _ ⟨⟩
      exact enabled.2
  | dropNoCollect t o =>
      refine inv.pushOne ?_ fun _ => by simp
      rintro _ ⟨⟩
      exact enabled.2
  | upgrade t o => exact inv.upgrade enabled.2
  | downgrade t o => exact inv.downgrade enabled.2
  | cloneWeak t o => exact inv.cloneWeak enabled.2
  | collect t => exact (inv.startCollect (.thread t) _).pushLoop (World.startCollect_snd _)
  | collectNounwind t => exact inv.collectThen (by simp [Frame.owes])
  | collectForce t =>
      have started := inv.withCurrent (.thread t)
      rw [← World.startCollectForce_fst] at started
      exact started.pushLoop World.startCollectForce_snd
  | put t o handle => exact inv.put enabled.2.1 enabled.2.2
  | take t o handle => exact (inv.take t (List.perm_cons_erase enabled.2.2)).1
  | send source target handle => exact inv.send enabled.2
  | panic t => exact (inv.panic t).setPanicking _
  | exit t => exact inv.exit t
  | step t => exact inv.step safe

omit [DecidableEq Tid] in
theorem initial : (Process.initial : Process pw Tid Oid).Inv where
  queues := {
    flag := by simp [Process.initial, World.initial, World.getById]
    active := by
      simp [Process.initial, World.initial, World.liveId, World.getById, World.shortId,
        LocalThreadStateFast.existingShortId]
    distinct := by simp [Process.initial, World.initial, World.shortId, LocalThreadStateFast.existingShortId]
    object := by simp [Process.initial, World.initial]
    queue := by simp [Process.initial, World.initial, World.queueOf, World.getById]
    nodup := by simp [Process.initial, World.initial, World.queueOf, World.getById]
    registered := by simp [Process.initial, World.initial]
    orphans := fun _ => rfl }
  covered _ _ := Nat.zero_le _
  stored o handle := by cases handle <;> rfl
  inside o nonempty := absurd rfl nonempty
  buried t id := by simp [Process.initial]
  orphans id nonempty := absurd rfl nonempty

/-- Runs in which no clone and no drop loses count of references. -/
theorem of_safe_run (reached : ((processes pw Tid Oid).restrict Safe).Reachable s) : s.Inv := by
  refine reached.invariant (P := Inv) ?_ ?_
  · rintro _ rfl
    exact initial
  · rintro s a s' inv ⟨safe, taken⟩
    obtain ⟨enabled, returned⟩ := processes_step.mp taken
    exact (inv.act enabled safe).of_ok returned

end Inv

end Process

end BiasedRc
