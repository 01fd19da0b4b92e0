import BiasedRc.WorldInvariant

/-! # Every call keeps the invariant

One lemma per call: from a world that satisfies the invariant the call returns
to such a world or aborts on an overflow. The two conditions under which this
holds are kept apart. A clone must not add to a shared count of -1, and an owner
must not give up its last biased reference while the object is still queued.
-/

namespace BiasedRc

open Tally Outcome

variable {pw : PointerWidth} {Tid Oid : Type}

/-- A header that at most had its counts merged. -/
structure Object.Drained (ob ob' : Object pw Tid) : Prop where
  strong : ob'.strong = ob.strong
  weak : ob'.weak = ob.weak
  settled : ob' = ob ∨ ob'.header.shared.merged = true

theorem Object.Drained.sunk {ob ob' : Object pw Tid} (drained : ob.Drained ob') (sunk : ob.Sunk) :
    ob'.Sunk := by
  obtain rfl | merged := drained.settled
  · exact sunk
  · exact sunk_of_merged merged

namespace World

/-- Only merges happened to objects. -/
structure Drains (w w' : World pw Tid Oid) : Prop where
  object : ∀ {o ob}, w.objects o = some ob → ∃ ob', w'.objects o = some ob' ∧ ob.Drained ob'
  fresh : ∀ {o}, w.objects o = none → w'.objects o = none

theorem Drains.of_objects {w w' : World pw Tid Oid} (same : w'.objects = w.objects) :
    w.Drains w' where
  object found := ⟨_, same ▸ found, rfl, rfl, .inl rfl⟩
  fresh free := same ▸ free

theorem Drains.trans {w w' w'' : World pw Tid Oid} (first : w.Drains w') (second : w'.Drains w'') :
    w.Drains w'' where
  object found := by
    obtain ⟨ob', found', drained⟩ := first.object found
    obtain ⟨ob'', found'', drained'⟩ := second.object found'
    refine ⟨ob'', found'', drained'.strong.trans drained.strong, drained'.weak.trans drained.weak, ?_⟩
    obtain rfl | merged := drained'.settled
    · exact drained.settled
    · exact .inr merged
  fresh free := second.fresh (first.fresh free)

theorem Drains.holdsStrong {w w' : World pw Tid Oid} (drains : w.Drains w') {t o}
    (holds : w.holdsStrong t o) : ∃ ob, w'.objects o = some ob ∧ 1 ≤ ob.strong t := by
  obtain ⟨ob, found, positive⟩ := holds
  obtain ⟨ob', found', drained⟩ := drains.object found
  exact ⟨ob', found', by rwa [drained.strong]⟩

/-- No object that waits has had its shared count lifted to zero. -/
def Sunk (w : World pw Tid Oid) : Prop := ∀ o ob, w.objects o = some ob → ob.Sunk

theorem Drains.sunk {w w' : World pw Tid Oid} (drains : w.Drains w') (sunk : w.Sunk) : w'.Sunk := by
  intro o ob' found'
  cases found : w.objects o with
  | none =>
      rw [drains.fresh found] at found'
      cases found'
  | some ob =>
      obtain ⟨ob'', found'', drained⟩ := drains.object found
      rw [found', Option.some.injEq] at found''
      subst found''
      exact drained.sunk (sunk o ob found)

end World

variable [DecidableEq Oid]

namespace World

theorem Sunk.setObject {w : World pw Tid Oid} {o ob} (sunk : w.Sunk) (kept : ob.Sunk) :
    (w.setObject o ob).Sunk := by
  intro o' ob' found
  by_cases same : o' = o
  · subst same
    rw [objects_setObject_self, Option.some.injEq] at found
    exact found ▸ kept
  · rw [objects_setObject_of_ne same] at found
    exact sunk o' ob' found

theorem Sunk.allocate [DecidableEq Tid] {w : World pw Tid Oid} {t o} (sunk : w.Sunk) :
    (w.allocate t o).Sunk := by
  have before : (w.withCurrent t).1.Sunk := by simpa only [Sunk, objects_withCurrent] using sunk
  exact before.setObject (Object.sunk_of_unqueued (Object.new_unqueued t _))

/-- An upgrade lifted the count of an object in the queue of this id. -/
def Floats (w : World pw Tid Oid) (id : ShortThreadId) : Prop :=
  ∃ o ∈ w.queueOf id, ∃ ob, w.objects o = some ob ∧ ¬ ob.Sunk

theorem Drains.setObject {w : World pw Tid Oid} {o ob ob'} (found : w.objects o = some ob)
    (drained : ob.Drained ob') : w.Drains (w.setObject o ob') where
  object := by
    intro o' ob'' found'
    by_cases same : o' = o
    · subst same
      rw [found, Option.some.injEq] at found'
      exact ⟨ob', objects_setObject_self, found' ▸ drained⟩
    · exact ⟨ob'', by rw [objects_setObject_of_ne same, found'], rfl, rfl, .inl rfl⟩
  fresh := by
    intro o' free
    have different : o' ≠ o := fun same => by simp [same, found] at free
    rw [objects_setObject_of_ne different, free]

theorem onObject_yields {w : World pw Tid Oid} {o ob} (found : w.objects o = some ob)
    (allocated : ob.freed = false) {op} {permitted : Fault → Prop} {post : Object pw Tid → Prop}
    (h : Yields permitted post (op ob)) :
    Yields permitted (fun w' => ∃ ob', post ob' ∧ w' = w.setObject o ob') (w.onObject o op) := by
  have pointed : w.deref o = .ok ob := by
    simp only [deref, found, allocated, Bool.false_eq_true, if_false]
  rw [onObject, pointed]
  exact h.bind fun ob' sound => ⟨ob', sound, rfl⟩

end World

variable [Fintype Tid]

namespace WorldInv

variable {w : World pw Tid Oid} {o : Oid} {ob ob' : Object pw Tid} {t : Tid} {id : ShortThreadId}
  {info : SharedThreadInfo Oid}

theorem explicitMerge (sound : ObjectInv ob) (found : w.objects o = some ob) (waits : ob.awaits id) :
    Yields (fun fault => fault.Overflow ∧ ¬ ob.Sunk)
      (fun w' => ∃ ob', ob.Merges ob' ∧ w' = w.setObject o ob') (w.explicitMerge id o) := by
  rw [World.explicitMerge]
  exact World.onObject_yields found (sound.not_freed_of_unmerged waits.1) (sound.explicitMerge waits)

/-- Processing the queue of a live thread empties it. The dying thread has already given up
    its id, so the invariant is stated with the thread-local states given apart. -/
theorem doProcess {fast : Tid → LocalThreadStateFast} {flag : ThreadStateFlag}
    (live : flag.isLive = true) {q : List Oid}
    (inv : WorldInv (World.setInfo { w with fast := fast } id ⟨flag, some q⟩))
    (known : (w.getById id).isSome) :
    Yields (fun fault => fault.Overflow ∧ ∃ o ∈ q, ∃ ob, w.objects o = some ob ∧ ¬ ob.Sunk)
      (fun w' => WorldInv (World.setInfo { w' with fast := fast } id ⟨flag, some []⟩) ∧
        w.Drains w' ∧ w'.threads = w.threads ∧ w'.fast = w.fast)
      (World.doProcess id q w) := by
  induction q generalizing w with
  | nil => exact ⟨inv, .of_objects rfl, rfl, rfl⟩
  | cons o rest ih =>
      have known' : (World.getById { w with fast := fast } id).isSome := known
      have listed : o ∈ (World.setInfo { w with fast := fast } id ⟨flag, some (o :: rest)⟩).queueOf
          id := by
        rw [World.queueOf_setInfo_self known']
        exact List.mem_cons_self
      obtain ⟨ob, found, waits⟩ := (inv.queue id o).mp listed
      have found' : w.objects o = some ob := found
      have merging := explicitMerge (inv.object found) found' waits
      rw [World.doProcess]
      refine (merging.weaken fun fault ⟨overflow, floats⟩ =>
        ⟨overflow, o, List.mem_cons_self, ob, found', floats⟩).bind ?_
      rintro _ ⟨ob', merges, rfl⟩
      have popped : WorldInv (World.setInfo { w.setObject o ob' with fast := fast } id
          ⟨flag, some rest⟩) := inv.pop known' live found merges
      refine ((ih popped known).weaken ?_).mono ?_
      · rintro fault ⟨overflow, o', later, ob'', found'', floats⟩
        have nodup := inv.nodup id
        rw [World.queueOf_setInfo_self known', Option.getD_some, List.nodup_cons] at nodup
        have other : o' ≠ o := fun same => nodup.1 (same ▸ later)
        rw [World.objects_setObject_of_ne other] at found''
        exact ⟨overflow, o', List.mem_cons_of_mem o later, ob'', found'', floats⟩
      rintro w' ⟨inv', drains, threads, fast⟩
      have drained : ob.Drained ob' := ⟨merges.strong, merges.weak, .inr merges.merged⟩
      exact ⟨inv', (World.Drains.setObject found' drained).trans drains, threads, fast⟩

theorem collectForceOf (inv : WorldInv w) :
    Yields (fun fault => fault.Overflow ∧ w.Floats id)
      (fun w' => WorldInv w' ∧ w.Drains w' ∧ w'.fast = w.fast ∧ w'.queueOf id = [])
      (w.collectForceOf id) := by
  simp only [World.collectForceOf]
  split
  · rename_i unknown
    exact ⟨inv, .of_objects rfl, rfl, by simp [World.queueOf, unknown]⟩
  · rename_i info found
    have known : (w.getById id).isSome := by rw [found]; rfl
    have flag := inv.flag found
    split
    · rename_i live
      rw [live] at flag
      obtain ⟨queue, listed⟩ := Option.isSome_iff_exists.mp flag
      have whole : WorldInv (w.setInfo id ⟨info.stateFlag, some queue⟩) := by
        rwa [World.setInfo_listed found listed]
      have queueOf : w.queueOf id = queue := by
        simp only [World.queueOf, found, listed, Option.bind_some, Option.getD_some]
      simp only [listed]
      rw [World.Floats, queueOf]
      refine (doProcess live whole known).bind ?_
      rintro w' ⟨inv', drains, threads, fast⟩
      have known' : (w'.getById id).isSome := by rwa [World.getById, threads]
      have inv' : WorldInv (w'.setInfo id ⟨info.stateFlag, some []⟩) := by rwa [← fast] at inv'
      have alive := inv'.active id
      rw [World.liveId_setInfo_self known', live] at alive
      exact ⟨inv'.resetInfo known' rfl rfl alive, ⟨drains.object, drains.fresh⟩, fast,
        World.queueOf_setInfo_self known'⟩
    · rename_i dead
      rw [Bool.not_eq_true] at dead
      rw [dead, Option.isSome_eq_false_iff, Option.isNone_iff_eq_none] at flag
      exact ⟨inv, .of_objects rfl, rfl, by simp [World.queueOf, found, flag]⟩

omit [DecidableEq Oid] in
theorem initThread [DecidableEq Tid] (inv : WorldInv w) (uninit : w.shortId t = none) :
    WorldInv (w.initThread t).1 ∧ (w.initThread t).1.objects = w.objects ∧
      (w.initThread t).1.shortId t = (w.initThread t).2 ∧
      ∀ t', t' ≠ t → (w.initThread t).1.shortId t' = w.shortId t' := by
  simp only [World.initThread]
  split
  · exact ⟨inv, rfl, uninit, fun _ _ => rfl⟩
  · split
    · refine ⟨inv.of_views rfl ?_ rfl, rfl, uninit, fun _ _ => rfl⟩
      funext id
      exact World.getById_push_none
    · rename_i id fits
      exact ⟨inv.register uninit (ShortThreadId.index_ofIndex fits), rfl, World.shortId_setFast_self,
        fun t' other => World.shortId_setFast_of_ne other⟩

omit [DecidableEq Oid] in
/-- The lazy initialization of a thread changes no object and no other thread. -/
theorem withCurrent [DecidableEq Tid] (inv : WorldInv w) :
    WorldInv (w.withCurrent t).1 ∧ (w.withCurrent t).1.objects = w.objects ∧
      (w.withCurrent t).1.shortId t = (w.withCurrent t).2 ∧
      (∀ id, w.shortId t = some id → (w.withCurrent t).2 = some id) ∧
      ∀ t', t' ≠ t → (w.withCurrent t).1.shortId t' = w.shortId t' := by
  simp only [World.withCurrent]
  cases status : (w.fast t).status with
  | uninit =>
      have uninit : w.shortId t = none := by
        simp only [World.shortId, LocalThreadStateFast.existingShortId, status]
      obtain ⟨sound, objects, self, others⟩ := inv.initThread uninit
      exact ⟨sound, objects, self, by simp [uninit], others⟩
  | active => exact ⟨inv, rfl, rfl, fun _ h => h, fun _ _ => rfl⟩
  | deadOrDying =>
      have none : w.shortId t = none := by
        simp only [World.shortId, LocalThreadStateFast.existingShortId, status]
      exact ⟨inv, rfl, none, by simp [none], fun _ _ => rfl⟩

end WorldInv

/-- What a collection of thread `t` leaves. -/
structure World.Collects (t : Tid) (w w' : World pw Tid Oid) : Prop where
  inv : WorldInv w'
  drains : w.Drains w'
  self : ∀ id, w.shortId t = some id → w'.shortId t = some id
  others : ∀ t', t' ≠ t → w'.shortId t' = w.shortId t'

theorem World.Collects.collectForceOf {w w' : World pw Tid Oid} {t : Tid} {id : ShortThreadId}
    (first : World.Collects t w w') :
    Yields (fun fault => fault.Overflow ∧ w'.Floats id)
      (fun w'' => World.Collects t w w'' ∧ w''.shortId = w'.shortId ∧ w''.queueOf id = [])
      (w'.collectForceOf id) := by
  refine first.inv.collectForceOf.mono ?_
  rintro w'' ⟨inv'', drains, fast, emptied⟩
  have same : w''.shortId = w'.shortId := by
    funext t'
    simp only [World.shortId, fast]
  refine ⟨⟨inv'', first.drains.trans drains, ?_, ?_⟩, same, emptied⟩
  · rw [same]
    exact first.self
  · rw [same]
    exact first.others

variable [DecidableEq Tid]

namespace WorldInv

variable {w : World pw Tid Oid} {o : Oid} {ob ob' : Object pw Tid} {t : Tid} {id : ShortThreadId}
  {info : SharedThreadInfo Oid}

omit [DecidableEq Oid] in
theorem collects_withCurrent (inv : WorldInv w) : World.Collects t w (w.withCurrent t).1 := by
  obtain ⟨sound, objects, current, self, others⟩ := inv.withCurrent
  exact ⟨sound, .of_objects objects, fun id owned => current.trans (self id owned), others⟩

omit [DecidableEq Oid] in
/-- A thread that registers only now has nothing in its queue. -/
theorem floats_withCurrent (inv : WorldInv w) (current : (w.withCurrent t).2 = some id)
    (floats : (w.withCurrent t).1.Floats id) : w.shortId t = some id ∧ w.Floats id := by
  obtain ⟨sound, objects, self, before, others⟩ := inv.withCurrent (t := t)
  obtain ⟨o, listed, ob, found, floats⟩ := floats
  rw [objects] at found
  have waits : ob.awaits id := sound.waiting listed (by rw [objects, found])
  have listed' : o ∈ w.queueOf id := (inv.queue id o).mpr ⟨ob, found, waits⟩
  refine ⟨?_, o, listed', ob, found, floats⟩
  obtain ⟨t', owned⟩ := (inv.active id).mp (inv.liveId_of_listed listed')
  by_cases same : t' = t
  · rw [← same, owned]
  · have owned' := (others t' same).trans owned
    exact absurd (sound.distinct owned' (self.trans current)) same

/-- After a forced collection the queue of the calling thread is empty. -/
theorem collectForce (inv : WorldInv w) :
    Yields (fun fault => fault.Overflow ∧ ∃ id, w.shortId t = some id ∧ w.Floats id)
      (fun w' => World.Collects t w w' ∧ ∀ id, w'.shortId t = some id → w'.queueOf id = [])
      (w.collectForce t) := by
  have first : World.Collects t w (w.withCurrent t).1 := inv.collects_withCurrent
  have current := (inv.withCurrent (t := t)).2.2.1
  rw [World.collectForce]
  cases found : (w.withCurrent t).2 with
  | none => exact ⟨first, by simp [current, found]⟩
  | some id =>
      refine (first.collectForceOf.weaken fun fault ⟨overflow, floats⟩ =>
        ⟨overflow, id, inv.floats_withCurrent found floats⟩).mono ?_
      rintro w' ⟨collects, same, emptied⟩
      refine ⟨collects, ?_⟩
      intro id' owned
      rw [same, current, found, Option.some.injEq] at owned
      exact owned ▸ emptied

theorem collect (inv : WorldInv w) (panicking : Bool) :
    Yields Fault.Overflow (World.Collects t w) (w.collect t panicking) := by
  have first : World.Collects t w (w.withCurrent t).1 := inv.collects_withCurrent
  rw [World.collect]
  split
  · rw [World.collectSlow]
    split
    · exact first
    · split
      · exact first
      · split
        · exact (first.collectForceOf.weaken fun _ permitted => permitted.1).mono
            fun _ result => result.1
        · exact first
  · exact ⟨inv, .of_objects rfl, fun _ owned => owned, fun _ _ => rfl⟩

theorem allocate (inv : WorldInv w) (free : w.objects o = none) : WorldInv (w.allocate t o) := by
  obtain ⟨sound, objects, current, _, _⟩ := inv.withCurrent (t := t)
  rw [World.allocate]
  refine sound.setObject (ObjectInv.new t _) ?_ ?_
  · intro id
    simp only [Object.not_awaits_of_unqueued (Object.new_unqueued t _), objects, free, false_iff]
    simp
  · intro id owned
    rw [Object.new_owner, ← current] at owned
    exact World.getById_of_liveId ((sound.active id).mpr ⟨t, owned⟩)

/-- Thread death empties the queue for good. -/
theorem threadDeath (inv : WorldInv w) :
    Yields (fun fault => fault.Overflow ∧ ∃ id, w.shortId t = some id ∧ w.Floats id)
      (fun w' => WorldInv w' ∧ w.Drains w' ∧ w'.shortId t = none ∧
        (∀ t', t' ≠ t → w'.shortId t' = w.shortId t') ∧
        ∀ id, w.shortId t = some id →
          w'.queueOf id = [] ∧ (w'.fast t).status = .deadOrDying)
      (w.threadDeath t) := by
  rw [World.threadDeath]
  cases owned : w.shortId t with
  | none => exact ⟨inv, .of_objects rfl, owned, fun _ _ => rfl, by simp⟩
  | some id =>
      obtain ⟨info, found, live⟩ := World.exists_of_liveId ((inv.active id).mpr ⟨t, owned⟩)
      have flag := inv.flag found
      rw [live] at flag
      obtain ⟨queue, listed⟩ := Option.isSome_iff_exists.mp flag
      have known : (w.getById id).isSome := by rw [found]; rfl
      have waiting : WorldInv (World.setInfo
          { (w.setFast t ⟨.deadOrDying, none⟩).setInfo id ⟨.dying, none⟩ with fast := w.fast }
          id ⟨info.stateFlag, some queue⟩) := by
        have same : World.setInfo
            { (w.setFast t ⟨.deadOrDying, none⟩).setInfo id ⟨.dying, none⟩ with fast := w.fast }
            id ⟨info.stateFlag, some queue⟩ =
              (w.setInfo id ⟨.dying, none⟩).setInfo id ⟨info.stateFlag, some queue⟩ := rfl
        rwa [same, World.setInfo_setInfo, World.setInfo_listed found listed]
      have known' : (((w.setFast t ⟨.deadOrDying, none⟩).setInfo id ⟨.dying, none⟩).getById
          id).isSome := by
        rw [World.getById_setInfo_self (by exact known)]
        rfl
      have queueOf : w.queueOf id = queue := by
        simp only [World.queueOf, found, listed, Option.bind_some, Option.getD_some]
      simp only [found, listed, Option.getD_some]
      refine ((doProcess live waiting known').weaken (by
        rintro fault ⟨overflow, floats⟩
        exact ⟨overflow, id, rfl, by rw [World.Floats, queueOf]; exact floats⟩)).bind ?_
      rintro w' ⟨inv', drains, threads, fast⟩
      have known'' : (w'.getById id).isSome := by rwa [World.getById, threads]
      have shortId : w'.shortId = (w.setFast t ⟨.deadOrDying, none⟩).shortId := by
        funext t'
        simp only [World.shortId, fast]
        rfl
      have dead := inv'.die known'' owned rfl
      have same : World.setFast { w' with fast := w.fast } t ⟨.deadOrDying, none⟩ = w' := by
        cases w'
        cases fast
        rfl
      rw [same] at dead
      refine ⟨dead, ⟨drains.object, drains.fresh⟩, ?_, ?_, ?_⟩
      · rw [World.shortId_setInfo, shortId, World.shortId_setFast_self]
        rfl
      · intro t' other
        rw [World.shortId_setInfo, shortId, World.shortId_setFast_of_ne other]
      · intro id' sameId
        refine ⟨by rw [← Option.some.inj sameId, World.queueOf_setInfo_self known'']; rfl, ?_⟩
        change (w'.fast t).status = _
        simp only [fast, World.setInfo, World.setFast, Function.update_self]

end WorldInv

/-- What a call on the object `o` leaves. -/
structure World.Touches (w : World pw Tid Oid) (o : Oid) (strong weak : Tid → Nat)
    (w' : World pw Tid Oid) : Prop where
  inv : WorldInv w'
  before : ∃ ob, w.objects o = some ob
  object : ∃ ob', w'.objects o = some ob' ∧ ob'.strong = strong ∧ ob'.weak = weak
  owner : ∀ ob ob', w.objects o = some ob → w'.objects o = some ob' →
    ∀ id, ob'.header.biased.ownerId = some id → ob.header.biased.ownerId = some id
  others : ∀ o', o' ≠ o → w'.objects o' = w.objects o'
  fast : w'.fast = w.fast
  liveId : w'.liveId = w.liveId

omit [DecidableEq Oid] [DecidableEq Tid] in
theorem World.Touches.shortId {w w' : World pw Tid Oid} {o strong weak}
    (touches : w.Touches o strong weak w') : w'.shortId = w.shortId := by
  funext t
  simp only [World.shortId, touches.fast]

/-- The same for every call but an upgrade. -/
structure World.Steps (w : World pw Tid Oid) (o : Oid) (strong weak : Tid → Nat)
    (w' : World pw Tid Oid) : Prop extends w.Touches o strong weak w' where
  sunk : ∀ ob ob', w.objects o = some ob → w'.objects o = some ob' → ob.Sunk → ob'.Sunk

omit [DecidableEq Tid] in
theorem World.Steps.sunk_all {w w' : World pw Tid Oid} {o strong weak}
    (steps : w.Steps o strong weak w') (sunk : w.Sunk) : w'.Sunk := by
  intro o' ob' found'
  by_cases same : o' = o
  · subst same
    obtain ⟨ob, found⟩ := steps.before
    exact steps.sunk ob ob' found found' (sunk o' ob found)
  · rw [steps.others o' same] at found'
    exact sunk o' ob' found'

namespace WorldInv

variable {w : World pw Tid Oid} {o : Oid} {ob ob' : Object pw Tid} {t : Tid} {id : ShortThreadId}
  {info : SharedThreadInfo Oid}

omit [Fintype Tid] [DecidableEq Tid] in
/-- The object before and after it is stored. -/
theorem forall_setObject {P : Object pw Tid → Object pw Tid → Prop} (found : w.objects o = some ob)
    (change : P ob ob') :
    ∀ ob₁ ob₂, w.objects o = some ob₁ → (w.setObject o ob').objects o = some ob₂ → P ob₁ ob₂ := by
  intro ob₁ ob₂ found₁ found₂
  rw [found, Option.some.injEq] at found₁
  rw [World.objects_setObject_self, Option.some.injEq] at found₂
  subst found₁ found₂
  exact change

omit [DecidableEq Tid] in
theorem setObject_touches (inv : WorldInv w) (found : w.objects o = some ob) {strong weak}
    (next : ob.Adjusts strong weak ob') : w.Touches o strong weak (w.setObject o ob') where
  inv := inv.adjusts found next
  before := ⟨ob, found⟩
  object := ⟨ob', World.objects_setObject_self, next.strong, next.weak⟩
  owner := forall_setObject found next.entry.owner
  others _ other := World.objects_setObject_of_ne other
  fast := rfl
  liveId := rfl

omit [DecidableEq Tid] in
theorem setObject_steps (inv : WorldInv w) (found : w.objects o = some ob) {strong weak}
    (next : ob.Becomes strong weak ob') : w.Steps o strong weak (w.setObject o ob') where
  toTouches := inv.setObject_touches found next.toAdjusts
  sunk := forall_setObject found next.sunk

omit [DecidableEq Tid] in
/-- The object a drop queues is either pushed to a live queue or merged in place. -/
theorem decrementSharedDoQueue (inv : WorldInv w) (found : w.objects o = some ob) {strong}
    (won : ob.Won strong ob') :
    Yields (fun _ => False) (w.Steps o strong ob.weak) (w.decrementSharedDoQueue o ob') := by
  obtain ⟨id, owner, _, _⟩ := won.inv.owned won.unmerged
  have registered := inv.registered found (won.biased ▸ owner)
  obtain ⟨info, known⟩ := Option.isSome_iff_exists.mp registered
  have flag := inv.flag known
  simp only [World.decrementSharedDoQueue, owner, known, World.queueObject]
  cases listed : info.queuedObjects with
  | some queue =>
      have live : info.stateFlag.isLive = true := by rw [← flag, listed]; rfl
      have live' : (if info.stateFlag = .live then .queuedObjects else info.stateFlag).isLive =
          true := by
        split
        · rfl
        · exact live
      have alive : w.liveId id = true := by rw [World.liveId, known, Option.any_some, live]
      have next := inv.push found won (won.biased ▸ owner) alive live'
      have queueOf : w.queueOf id = queue := by
        simp only [World.queueOf, known, listed, Option.bind_some, Option.getD_some]
      rw [queueOf] at next
      exact {
        inv := next
        before := ⟨ob, found⟩
        object := ⟨_, World.objects_setObject_self, won.strong, won.weak⟩
        owner := by
          intro ob₁ ob₂ found₁ found₂
          rw [found, Option.some.injEq] at found₁
          rw [World.objects_setInfo, World.objects_setObject_self, Option.some.injEq] at found₂
          subst found₁ found₂
          exact fun id owned => won.biased ▸ owned
        others := fun o' other => World.objects_setObject_of_ne other
        fast := rfl
        liveId := by
          funext id'
          by_cases same : id' = id
          · subst same
            rw [World.liveId_setInfo_self (by exact registered), live', alive]
          · rw [World.liveId_setInfo_of_ne same, World.liveId_setObject]
        sunk := by
          intro ob₁ ob₂ _ found₂ _
          rw [World.objects_setInfo, World.objects_setObject_self, Option.some.injEq] at found₂
          exact found₂ ▸ fun _ _ => won.negative }
  | none =>
      have dead : info.stateFlag.isLive = false := by rw [← flag, listed]; rfl
      simp only [dead, Bool.false_eq_true, if_false]
      have waits : ob'.awaits id := ⟨won.unmerged, won.queued, owner⟩
      have merging := explicitMerge won.inv World.objects_setObject_self waits (w := w.setObject o ob')
      refine (merging.weaken fun fault => ?_).mono ?_
      · rintro ⟨_, floats⟩
        exact floats fun _ _ => won.negative
      · rintro _ ⟨ob'', merges, rfl⟩
        rw [World.setObject_setObject]
        have unowned := (merges.inv.released merges.merged).1
        exact {
          inv := inv.mergeInPlace found won.unqueued merges
          before := ⟨ob, found⟩
          object := ⟨ob'', World.objects_setObject_self, merges.strong.trans won.strong,
            merges.weak.trans won.weak⟩
          owner := by
            intro ob₁ ob₂ _ found₂ id owned
            rw [World.objects_setObject_self, Option.some.injEq] at found₂
            rw [← found₂, unowned] at owned
            cases owned
          others := fun o' other => World.objects_setObject_of_ne other
          fast := rfl
          liveId := rfl
          sunk := by
            intro ob₁ ob₂ _ found₂ _
            rw [World.objects_setObject_self, Option.some.injEq] at found₂
            exact found₂ ▸ Object.sunk_of_merged merges.merged }

/-- A drop never fails. -/
theorem dropNoCollect (inv : WorldInv w) (found : w.objects o = some ob) (holds : 1 ≤ ob.strong t)
    (unqueued : ob.header.biased.decrementBiased (w.shortId t) = .slow →
      ob.header.shared.queued = false) :
    Yields (fun _ => False) (w.Steps o (lower ob.strong t) ob.weak) (w.dropNoCollect t o) := by
  have sound := inv.object found
  have pointed : w.deref o = .ok ob := by
    simp only [World.deref, found, sound.not_freed_of_strong holds, Bool.false_eq_true, if_false]
  rw [World.dropNoCollect, pointed]
  refine (sound.decrementStrong holds unqueued).bind ?_
  rintro ⟨ob', won⟩ result
  cases won with
  | true => exact inv.decrementSharedDoQueue found result
  | false => exact inv.setObject_steps found result

end WorldInv

namespace World

/-- The clone does not come to a `fetch_add` that carries out of the count field. -/
def CloneSafe (w : World pw Tid Oid) (t : Tid) (o : Oid) : Prop :=
  ∀ ob, w.objects o = some ob → ob.header.biased.attemptIncrement (w.shortId t) = none →
    ob.header.shared.sharedCount.value ≠ -1

def CloneSharedSafe (w : World pw Tid Oid) (o : Oid) : Prop :=
  ∀ ob, w.objects o = some ob → ob.header.shared.sharedCount.value ≠ -1

/-- The owner does not give up its last biased reference while the object is queued. -/
def DropSafe (w : World pw Tid Oid) (t : Tid) (o : Oid) : Prop :=
  ∀ ob, w.objects o = some ob → ob.header.biased.decrementBiased (w.shortId t) = .slow →
    ob.header.shared.queued = false

instance (w : World pw Tid Oid) (t : Tid) (o : Oid) : Decidable (w.CloneSafe t o) :=
  inferInstanceAs (Decidable (∀ ob ∈ w.objects o,
    ob.header.biased.attemptIncrement (w.shortId t) = none →
      ob.header.shared.sharedCount.value ≠ -1))

instance (w : World pw Tid Oid) (o : Oid) : Decidable (w.CloneSharedSafe o) :=
  inferInstanceAs (Decidable (∀ ob ∈ w.objects o, ob.header.shared.sharedCount.value ≠ -1))

instance (w : World pw Tid Oid) (t : Tid) (o : Oid) : Decidable (w.DropSafe t o) :=
  inferInstanceAs (Decidable (∀ ob ∈ w.objects o,
    ob.header.biased.decrementBiased (w.shortId t) = .slow → ob.header.shared.queued = false))

/-- No clone adds to a shared count of -1. -/
def NoCarry (w : World pw Tid Oid) : Call Tid Oid → Prop
  | .clone t o panicking => ∀ w', w.collect t panicking = .ok w' → w'.CloneSafe t o
  | .cloneNoCollect t o => w.CloneSafe t o
  | .cloneShared _ o => w.CloneSharedSafe o
  | _ => True

/-- No owner merges by its own last drop an object that is still to be merged from the queue. -/
def NoEarlyMerge (w : World pw Tid Oid) : Call Tid Oid → Prop
  | .drop t o panicking => ∀ w', w.collect t panicking = .ok w' → w'.DropSafe t o
  | .dropNoCollect t o => w.DropSafe t o
  | _ => True

instance (w : World pw Tid Oid) (t : Tid) (panicking : Bool) (P : World pw Tid Oid → Prop)
    [DecidablePred P] : Decidable (∀ w', w.collect t panicking = .ok w' → P w') :=
  match h : w.collect t panicking with
  | .error _ => .isTrue fun w' returned => by simp at returned
  | .ok w₁ => decidable_of_iff (P w₁) (by simp)

instance (w : World pw Tid Oid) (c : Call Tid Oid) : Decidable (w.NoCarry c) :=
  match c with
  | .clone t o panicking =>
      inferInstanceAs (Decidable (∀ w', w.collect t panicking = .ok w' → w'.CloneSafe t o))
  | .cloneNoCollect t o => inferInstanceAs (Decidable (w.CloneSafe t o))
  | .cloneShared _ o => inferInstanceAs (Decidable (w.CloneSharedSafe o))
  | .new _ _ _ | .drop _ _ _ | .dropNoCollect _ _ | .upgrade _ _ | .downgrade _ _
  | .cloneWeak _ _ | .dropWeak _ _ | .collect _ _ | .collectForce _ | .threadDeath _
  | .send _ _ _ | .sendWeak _ _ _ => .isTrue trivial

instance (w : World pw Tid Oid) (c : Call Tid Oid) : Decidable (w.NoEarlyMerge c) :=
  match c with
  | .drop t o panicking =>
      inferInstanceAs (Decidable (∀ w', w.collect t panicking = .ok w' → w'.DropSafe t o))
  | .dropNoCollect t o => inferInstanceAs (Decidable (w.DropSafe t o))
  | .new _ _ _ | .clone _ _ _ | .cloneNoCollect _ _ | .cloneShared _ _ | .upgrade _ _
  | .downgrade _ _ | .cloneWeak _ _ | .dropWeak _ _ | .collect _ _ | .collectForce _
  | .threadDeath _ | .send _ _ _ | .sendWeak _ _ _ => .isTrue trivial

end World

/-- `Weak::upgrade` can lift the count of an object that waits to be merged. -/
def Call.isUpgrade : Call Tid Oid → Bool
  | .upgrade _ _ => true
  | _ => false

namespace WorldInv

variable {w : World pw Tid Oid} {o : Oid} {ob ob' : Object pw Tid} {t : Tid}

omit [DecidableEq Tid] in
theorem onObject (inv : WorldInv w) (found : w.objects o = some ob) (allocated : ob.freed = false)
    {op strong weak} {permitted : Fault → Prop}
    (h : Yields permitted (ob.Becomes strong weak) (op ob)) :
    Yields permitted (w.Steps o strong weak) (w.onObject o op) := by
  refine (World.onObject_yields found allocated h).mono ?_
  rintro _ ⟨ob', becomes, rfl⟩
  exact inv.setObject_steps found becomes

theorem cloneNoCollect (inv : WorldInv w) (found : w.objects o = some ob) (holds : 1 ≤ ob.strong t)
    (safe : w.CloneSafe t o) :
    Yields Fault.Overflow
      (w.Steps o (raise ob.strong t) ob.weak)
      (w.cloneNoCollect t o) := by
  have sound := inv.object found
  exact inv.onObject found (sound.not_freed_of_strong holds)
    (sound.incrementStrong (holds.trans (le_total _ t)) (safe ob found))

theorem cloneShared (inv : WorldInv w) (found : w.objects o = some ob) (holds : 1 ≤ ob.strong t)
    (safe : ob.header.shared.sharedCount.value ≠ -1) :
    Yields Fault.Overflow
      (w.Steps o (raise ob.strong t) ob.weak)
      (w.onObject o fun ob => ob.incrementStrongShared t) := by
  have sound := inv.object found
  exact inv.onObject found (sound.not_freed_of_strong holds)
    (sound.incrementStrongShared (holds.trans (le_total _ t)) safe)

theorem downgrade (inv : WorldInv w) (found : w.objects o = some ob) (holds : 1 ≤ ob.strong t) :
    Yields Fault.Overflow
      (w.Steps o ob.strong (raise ob.weak t))
      (w.onObject o fun ob => ob.downgrade t) := by
  have sound := inv.object found
  exact inv.onObject found (sound.not_freed_of_strong holds) (sound.downgrade holds)

theorem cloneWeak (inv : WorldInv w) (found : w.objects o = some ob) (holds : 1 ≤ ob.weak t) :
    Yields Fault.Overflow
      (w.Steps o ob.strong (raise ob.weak t))
      (w.onObject o fun ob => ob.cloneWeak t) := by
  have sound := inv.object found
  exact inv.onObject found (sound.not_freed_of_weak holds) (sound.cloneWeak holds)

theorem dropWeak (inv : WorldInv w) (found : w.objects o = some ob) (holds : 1 ≤ ob.weak t) :
    Yields (fun _ => False)
      (w.Steps o ob.strong (lower ob.weak t))
      (w.onObject o fun ob => .ok (ob.releaseWeak t)) := by
  have sound := inv.object found
  exact inv.onObject found (sound.not_freed_of_weak holds) (sound.releaseWeak holds)

theorem upgrade (inv : WorldInv w) (found : w.objects o = some ob) (holds : 1 ≤ ob.weak t) :
    Yields Fault.Overflow
      (fun w' => ∃ succeeded : Bool,
        (succeeded = true ↔ ¬ (ob.header.shared.merged = true ∧ total ob.strong = 0)) ∧
          w.Touches o (if succeeded then raise ob.strong t else ob.strong) ob.weak w')
      (w.onObject o fun ob => do return (← ob.incrementStrongUnlessZero t (w.shortId t)).1) := by
  have sound := inv.object found
  have upgraded : Yields Fault.Overflow
      (fun ob' => ∃ succeeded : Bool,
        (succeeded = true ↔ ¬ (ob.header.shared.merged = true ∧ total ob.strong = 0)) ∧
          ob.Adjusts (if succeeded then raise ob.strong t else ob.strong) ob.weak ob')
      (do return (← ob.incrementStrongUnlessZero t (w.shortId t)).1) :=
    sound.incrementStrongUnlessZero.bind fun result upgraded => ⟨result.2, upgraded⟩
  refine (World.onObject_yields found (sound.not_freed_of_weak holds) upgraded).mono ?_
  rintro _ ⟨ob', ⟨succeeded, outcome, adjusts⟩, rfl⟩
  exact ⟨succeeded, outcome, inv.setObject_touches found adjusts⟩

theorem send (inv : WorldInv w) (found : w.objects o = some ob) {source : Tid} (target : Tid)
    (holds : 1 ≤ ob.strong source) :
    Yields (fun _ => False)
      (w.Steps o (raise (lower ob.strong source) target) ob.weak)
      (w.onObject o fun ob => .ok { ob with strong := raise (lower ob.strong source) target }) := by
  have sound := inv.object found
  exact inv.onObject found (sound.not_freed_of_strong holds) (sound.send holds)

theorem sendWeak (inv : WorldInv w) (found : w.objects o = some ob) {source target : Tid}
    (holds : 1 ≤ ob.weak source) :
    Yields (fun _ => False)
      (w.Steps o ob.strong (raise (lower ob.weak source) target))
      (w.onObject o fun ob => .ok { ob with weak := raise (lower ob.weak source) target }) := by
  have sound := inv.object found
  exact inv.onObject found (sound.not_freed_of_weak holds) (sound.sendWeak holds)

/-- Every enabled call that meets the two conditions. -/
theorem call (inv : WorldInv w) {c : Call Tid Oid} (enabled : w.enabled c) (noCarry : w.NoCarry c)
    (noEarlyMerge : w.NoEarlyMerge c) :
    Yields Fault.Overflow (fun w' => WorldInv w' ∧ (c.isUpgrade = false → w.Sunk → w'.Sunk))
      (w.call c) := by
  have drained : ∀ {t w'}, World.Collects t w w' → w.Sunk → w'.Sunk :=
    fun collects sunk => collects.drains.sunk sunk
  have touched : ∀ {w₀ w' : World pw Tid Oid} {strong weak : Tid → Nat} {o : Oid}, (w.Sunk → w₀.Sunk) →
      w₀.Steps o strong weak w' → WorldInv w' ∧ (c.isUpgrade = false → w.Sunk → w'.Sunk) :=
    fun before steps => ⟨steps.inv, fun _ sunk => steps.sunk_all (before sunk)⟩
  cases c with
  | new t o panicking =>
      have free : w.objects o = none := enabled
      refine (inv.collect panicking).bind fun w' collects => ?_
      exact ⟨collects.inv.allocate (collects.drains.fresh free),
        fun _ sunk => (drained collects sunk).allocate⟩
  | clone t o panicking =>
      refine (inv.collect panicking).bind_eq fun w' returned collects => ?_
      obtain ⟨ob, found, holds⟩ := collects.drains.holdsStrong enabled
      exact (collects.inv.cloneNoCollect found holds (noCarry w' returned)).mono
        fun _ => touched (drained collects)
  | cloneNoCollect t o =>
      obtain ⟨ob, found, holds⟩ := enabled
      exact (inv.cloneNoCollect found holds noCarry).mono fun _ => touched id
  | cloneShared t o =>
      obtain ⟨ob, found, holds⟩ := enabled
      exact (inv.cloneShared found holds (noCarry ob found)).mono fun _ => touched id
  | drop t o panicking =>
      refine (inv.collect panicking).bind_eq fun w' returned collects => ?_
      obtain ⟨ob, found, holds⟩ := collects.drains.holdsStrong enabled
      have dropped := collects.inv.dropNoCollect found holds (noEarlyMerge w' returned ob found)
      exact (dropped.weaken nofun).mono fun _ => touched (drained collects)
  | dropNoCollect t o =>
      obtain ⟨ob, found, holds⟩ := enabled
      have dropped := inv.dropNoCollect found holds (noEarlyMerge ob found)
      exact (dropped.weaken nofun).mono fun _ => touched id
  | upgrade t o =>
      obtain ⟨ob, found, holds⟩ := enabled
      exact (inv.upgrade found holds).mono fun _ ⟨_, _, touches⟩ => ⟨touches.inv, nofun⟩
  | downgrade t o =>
      obtain ⟨ob, found, holds⟩ := enabled
      exact (inv.downgrade found holds).mono fun _ => touched id
  | cloneWeak t o =>
      obtain ⟨ob, found, holds⟩ := enabled
      exact (inv.cloneWeak found holds).mono fun _ => touched id
  | dropWeak t o =>
      obtain ⟨ob, found, holds⟩ := enabled
      exact ((inv.dropWeak found holds).weaken nofun).mono fun _ => touched id
  | collect t panicking =>
      exact (inv.collect panicking).mono fun w' collects => ⟨collects.inv, fun _ => drained collects⟩
  | collectForce t =>
      exact (inv.collectForce.weaken fun _ permitted => permitted.1).mono
        fun w' ⟨collects, _⟩ => ⟨collects.inv, fun _ => drained collects⟩
  | threadDeath t =>
      exact (inv.threadDeath.weaken fun _ permitted => permitted.1).mono
        fun w' ⟨inv', drains, _⟩ => ⟨inv', fun _ => drains.sunk⟩
  | send source target o =>
      obtain ⟨ob, found, holds⟩ := enabled
      exact ((inv.send found target holds).weaken nofun).mono fun _ => touched id
  | sendWeak source target o =>
      obtain ⟨ob, found, holds⟩ := enabled
      exact ((inv.sendWeak found holds).weaken nofun).mono fun _ => touched id

/-- While no upgrade lifts a waiting count, the owner's last drop never meets a queued object. -/
theorem noEarlyMerge (inv : WorldInv w) (sunk : w.Sunk) {c : Call Tid Oid} (enabled : w.enabled c) :
    w.NoEarlyMerge c := by
  have safe : ∀ {w' : World pw Tid Oid} {t o}, WorldInv w' → w'.Sunk → w'.holdsStrong t o →
      w'.DropSafe t o := by
    intro w' t o inv' sunk' ⟨ob', found', holds⟩ ob found slow
    rw [found', Option.some.injEq] at found
    subst found
    exact (inv'.object found').unqueued_of_slow (sunk' o ob' found')
      (holds.trans (le_total ob'.strong t)) slow
  cases c with
  | drop t o panicking =>
      intro w' returned
      have collects := (inv.collect panicking).of_ok returned
      exact safe collects.inv (collects.drains.sunk sunk) (collects.drains.holdsStrong enabled)
  | dropNoCollect t o => exact safe inv sunk enabled
  | _ => trivial

end WorldInv

end BiasedRc
