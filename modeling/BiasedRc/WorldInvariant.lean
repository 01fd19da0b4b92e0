import BiasedRc.ObjectInvariant

/-! # The registry, the queues and every header together

A queue holds exactly the objects that wait for its thread: unmerged, queued and
owned by that id. `WorldInv` adds this to the invariant of every header, with
what the thread registry promises about live and dead threads. Merging pops one
entry and settles its header, so the invariant is stated of the world in which
the entries still to be merged are the queue.
-/

namespace BiasedRc

open Tally Outcome

variable {pw : PointerWidth} {Tid Oid : Type}

variable [Fintype Tid]

structure WorldInv (w : World pw Tid Oid) : Prop where
  object : ∀ {o ob}, w.objects o = some ob → ObjectInv ob
  queue : ∀ id o, o ∈ w.queueOf id ↔ ∃ ob, w.objects o = some ob ∧ ob.awaits id
  nodup : ∀ id, (w.queueOf id).Nodup
  registered : ∀ {o ob id}, w.objects o = some ob → ob.header.biased.ownerId = some id →
    (w.getById id).isSome
  flag : ∀ {id info}, w.getById id = some info →
    info.queuedObjects.isSome = info.stateFlag.isLive
  active : ∀ id, w.liveId id = true ↔ ∃ t, w.shortId t = some id
  distinct : ∀ {t t' id}, w.shortId t = some id → w.shortId t' = some id → t = t'

namespace WorldInv

variable {w : World pw Tid Oid} {o : Oid} {ob ob' : Object pw Tid} {id : ShortThreadId}
  {info : SharedThreadInfo Oid}

theorem setObject [DecidableEq Oid] (inv : WorldInv w) (sound : ObjectInv ob')
    (entry : ∀ id, ob'.awaits id ↔ ∃ ob, w.objects o = some ob ∧ ob.awaits id)
    (registered : ∀ id, ob'.header.biased.ownerId = some id → (w.getById id).isSome) :
    WorldInv (w.setObject o ob') where
  object := by
    intro o' ob found
    by_cases same : o' = o
    · subst same
      rw [World.objects_setObject_self, Option.some.injEq] at found
      exact found ▸ sound
    · rw [World.objects_setObject_of_ne same] at found
      exact inv.object found
  queue := by
    intro id o'
    rw [World.queueOf_setObject, inv.queue id o']
    by_cases same : o' = o
    · subst same
      rw [← entry, World.objects_setObject_self]
      simp
    · rw [World.objects_setObject_of_ne same]
  nodup := inv.nodup
  registered := by
    intro o' ob id found owned
    by_cases same : o' = o
    · subst same
      rw [World.objects_setObject_self, Option.some.injEq] at found
      exact registered id (found ▸ owned)
    · rw [World.objects_setObject_of_ne same] at found
      exact inv.registered found owned
  flag := inv.flag
  active := inv.active
  distinct := inv.distinct

theorem adjusts [DecidableEq Oid] (inv : WorldInv w) (found : w.objects o = some ob) {strong weak}
    (next : ob.Adjusts strong weak ob') : WorldInv (w.setObject o ob') := by
  refine inv.setObject next.inv ?_ fun id owned => inv.registered found (next.entry.owner id owned)
  intro id
  rw [next.entry.awaits, found]
  simp

/-- The invariant sees the registry only through `getById` and `existing_short_id`. -/
theorem of_views {w' : World pw Tid Oid} (inv : WorldInv w) (objects : w'.objects = w.objects)
    (getById : w'.getById = w.getById) (shortId : w'.shortId = w.shortId) : WorldInv w' where
  object found := inv.object (objects ▸ found)
  queue id o := by
    rw [World.queueOf, getById, objects]
    exact inv.queue id o
  nodup id := by
    rw [World.queueOf, getById]
    exact inv.nodup id
  registered found owned := getById ▸ inv.registered (objects ▸ found) owned
  flag found := inv.flag (getById ▸ found)
  active id := by
    rw [World.liveId, getById, shortId]
    exact inv.active id
  distinct owned owned' := inv.distinct (shortId ▸ owned) (shortId ▸ owned')

/-- Only the entry of one registered thread changes, and its queue holds the same objects. -/
theorem setInfo (inv : WorldInv w) (known : (w.getById id).isSome)
    (sameQueue : info.queuedObjects.getD [] = w.queueOf id)
    (flag : info.queuedObjects.isSome = info.stateFlag.isLive)
    (live : info.stateFlag.isLive = true ↔ ∃ t, w.shortId t = some id) :
    WorldInv (w.setInfo id info) where
  object := inv.object
  queue := by
    intro id' o
    by_cases same : id' = id
    · rw [same, World.queueOf_setInfo_self known, sameQueue]
      exact inv.queue id o
    · rw [World.queueOf_setInfo_of_ne same]
      exact inv.queue id' o
  nodup := by
    intro id'
    by_cases same : id' = id
    · rw [same, World.queueOf_setInfo_self known, sameQueue]
      exact inv.nodup id
    · rw [World.queueOf_setInfo_of_ne same]
      exact inv.nodup id'
  registered := by
    intro o ob id' found owned
    rw [World.getById_setInfo_isSome known]
    exact inv.registered found owned
  flag := by
    intro id' info' found
    by_cases same : id' = id
    · rw [same, World.getById_setInfo_self known, Option.some.injEq] at found
      exact found ▸ flag
    · rw [World.getById_setInfo_of_ne same] at found
      exact inv.flag found
  active := by
    intro id'
    rw [World.shortId_setInfo]
    by_cases same : id' = id
    · rw [same, World.liveId_setInfo_self known]
      exact live
    · rw [World.liveId_setInfo_of_ne same]
      exact inv.active id'
  distinct := inv.distinct

theorem resetInfo {info'} (inv : WorldInv (w.setInfo id info)) (known : (w.getById id).isSome)
    (sameQueue : info'.queuedObjects.getD [] = info.queuedObjects.getD [])
    (flag : info'.queuedObjects.isSome = info'.stateFlag.isLive)
    (live : info'.stateFlag.isLive = true ↔ ∃ t, w.shortId t = some id) :
    WorldInv (w.setInfo id info') := by
  have known' : ((w.setInfo id info).getById id).isSome := by
    rw [World.getById_setInfo_isSome known, known]
  have next := inv.setInfo known' (sameQueue.trans (World.queueOf_setInfo_self known).symm) flag live
  rwa [World.setInfo_setInfo] at next

/-- One object changes together with its membership in the queue of one live thread. -/
theorem requeue [DecidableEq Oid] (inv : WorldInv w) (found : w.objects o = some ob)
    (sound : ObjectInv ob')
    (owner : ∀ id, ob'.header.biased.ownerId = some id → ob.header.biased.ownerId = some id)
    (elsewhere : ∀ id', id' ≠ id → (ob'.awaits id' ↔ ob.awaits id'))
    (alive : w.liveId id = true) {flag} (live : flag.isLive = true) {q} (nodup : q.Nodup)
    (here : o ∈ q ↔ ob'.awaits id) (others : ∀ o', o' ≠ o → (o' ∈ q ↔ o' ∈ w.queueOf id)) :
    WorldInv ((w.setObject o ob').setInfo id ⟨flag, some q⟩) where
  object := by
    intro o' ob'' found'
    by_cases same : o' = o
    · subst same
      rw [World.objects_setInfo, World.objects_setObject_self, Option.some.injEq] at found'
      exact found' ▸ sound
    · rw [World.objects_setInfo, World.objects_setObject_of_ne same] at found'
      exact inv.object found'
  queue := by
    intro id' o'
    by_cases sameId : id' = id
    · subst sameId
      rw [World.queueOf_setInfo_self (by exact World.getById_of_liveId alive), Option.getD_some,
        World.objects_setInfo]
      by_cases same : o' = o
      · subst same
        rw [here, World.objects_setObject_self]
        simp
      · rw [others o' same, World.objects_setObject_of_ne same]
        exact inv.queue id' o'
    · rw [World.queueOf_setInfo_of_ne sameId, World.queueOf_setObject, World.objects_setInfo,
        inv.queue id' o']
      by_cases same : o' = o
      · subst same
        rw [World.objects_setObject_self, found]
        simpa using (elsewhere id' sameId).symm
      · rw [World.objects_setObject_of_ne same]
  nodup := by
    intro id'
    by_cases same : id' = id
    · subst same
      rw [World.queueOf_setInfo_self (by exact World.getById_of_liveId alive)]
      exact nodup
    · rw [World.queueOf_setInfo_of_ne same]
      exact inv.nodup id'
  registered := by
    intro o' ob'' id' found' owned
    rw [World.getById_setInfo_isSome (by exact World.getById_of_liveId alive), World.getById_setObject]
    by_cases same : o' = o
    · subst same
      rw [World.objects_setInfo, World.objects_setObject_self, Option.some.injEq] at found'
      exact inv.registered found (owner id' (found' ▸ owned))
    · rw [World.objects_setInfo, World.objects_setObject_of_ne same] at found'
      exact inv.registered found' owned
  flag := by
    intro id' info found'
    by_cases same : id' = id
    · subst same
      rw [World.getById_setInfo_self (by exact World.getById_of_liveId alive),
        Option.some.injEq] at found'
      subst found'
      exact live.symm
    · rw [World.getById_setInfo_of_ne same] at found'
      exact inv.flag found'
  active := by
    intro id'
    rw [World.shortId_setInfo, World.shortId_setObject, ← inv.active]
    by_cases same : id' = id
    · rw [same, World.liveId_setInfo_self (by exact World.getById_of_liveId alive), live, alive]
    · rw [World.liveId_setInfo_of_ne same, World.liveId_setObject]
  distinct := inv.distinct

theorem waiting (inv : WorldInv w) (listed : o ∈ w.queueOf id) (found : w.objects o = some ob) :
    ob.awaits id := by
  obtain ⟨ob', found', waits⟩ := (inv.queue id o).mp listed
  rw [found, Option.some.injEq] at found'
  exact found' ▸ waits

theorem liveId_of_listed (inv : WorldInv w) (listed : o ∈ w.queueOf id) : w.liveId id = true := by
  cases found : w.getById id with
  | none => simp [World.queueOf, found] at listed
  | some info =>
      cases queue : info.queuedObjects with
      | none => simp [World.queueOf, found, queue] at listed
      | some q =>
          have flag := inv.flag found
          rw [queue] at flag
          rw [World.liveId, found, Option.any_some, ← flag]
          rfl

/-- A drop that won the right to queue the object appends it to its owner's queue. -/
theorem push [DecidableEq Oid] (inv : WorldInv w) (found : w.objects o = some ob) {strong}
    (won : ob.Won strong ob')
    (owner : ob.header.biased.ownerId = some id) (alive : w.liveId id = true) {flag}
    (live : flag.isLive = true) :
    WorldInv ((w.setObject o { ob' with pushed := ob'.pushed + 1 }).setInfo id
      ⟨flag, some (w.queueOf id ++ [o])⟩) := by
  have absent : o ∉ w.queueOf id := by
    intro listed
    exact Object.not_awaits_of_unqueued won.unqueued id (inv.waiting listed found)
  have pushed : ObjectInv { ob' with pushed := ob'.pushed + 1 } :=
    { won.inv with pushed := by simp [won.unpushed, won.queued] }
  refine inv.requeue found pushed (fun _ owned => won.biased ▸ owned) ?_ alive live ?_ ?_ ?_
  · intro id' different
    simp only [Object.awaits, won.biased, owner, won.unqueued]
    simp [different.symm]
  · simpa [List.nodup_append] using ⟨inv.nodup id, fun o' listed same => absent (same ▸ listed)⟩
  · simp only [List.mem_append, List.mem_singleton, or_true, true_iff]
    exact ⟨won.unmerged, won.queued, by rw [won.biased, owner]⟩
  · intro o' different
    simp [different]

/-- An object that nobody waits for is merged in place. -/
theorem mergeInPlace [DecidableEq Oid] (inv : WorldInv w) (found : w.objects o = some ob)
    (unqueued : ob.header.shared.queued = false) {ob''} (merges : ob'.Merges ob'') :
    WorldInv (w.setObject o ob'') := by
  have unowned := (merges.inv.released merges.merged).1
  refine inv.setObject merges.inv ?_ (by simp [unowned])
  intro id
  rw [found]
  simp [Object.not_awaits_of_merged merges.merged, Object.not_awaits_of_unqueued unqueued]

/-- The head of a queue is merged; the rest is the queue that remains. -/
theorem pop [DecidableEq Oid] {flag rest} (inv : WorldInv (w.setInfo id ⟨flag, some (o :: rest)⟩))
    (known : (w.getById id).isSome) (live : flag.isLive = true) (found : w.objects o = some ob)
    (merges : ob.Merges ob') : WorldInv ((w.setObject o ob').setInfo id ⟨flag, some rest⟩) := by
  have queue : (w.setInfo id ⟨flag, some (o :: rest)⟩).queueOf id = o :: rest :=
    World.queueOf_setInfo_self known
  have nodup := inv.nodup id
  have waits : ob.awaits id := inv.waiting (by rw [queue]; exact List.mem_cons_self) found
  have unowned := (merges.inv.released merges.merged).1
  rw [queue, List.nodup_cons] at nodup
  have next := inv.requeue found merges.inv (by simp [unowned]) ?_
    (by rw [World.liveId_setInfo_self known, live]) live nodup.2 ?_ ?_
  · rwa [World.setInfo_setObject, World.setInfo_setInfo] at next
  · intro id' different
    simp only [Object.not_awaits_of_merged merges.merged, false_iff]
    intro ⟨_, _, owner⟩
    exact different (Option.some.inj (owner.symm.trans waits.2.2))
  · simp only [nodup.1, Object.not_awaits_of_merged merges.merged]
  · intro o' different
    simp only [queue, List.mem_cons, different, false_or]

/-- A thread that registers starts with an empty queue of its own. -/
theorem register [DecidableEq Tid] (inv : WorldInv w) {t : Tid} (uninit : w.shortId t = none)
    (fresh : id.index = w.threads.length) :
    WorldInv (World.setFast { w with threads := w.threads ++ [some ⟨.live, some []⟩] } t
      ⟨.active, some id⟩) where
  object := inv.object
  queue := by
    intro id' o
    by_cases same : id' = id
    · subst same
      have empty : w.queueOf id' = [] := by
        simp only [World.queueOf, World.getById_fresh fresh, Option.bind_none, Option.getD_none]
      rw [World.queueOf, World.getById_setFast, World.getById_push_self fresh]
      simpa [empty] using inv.queue id' o
    · rw [World.queueOf, World.getById_setFast, World.getById_push_of_ne fresh same]
      exact inv.queue id' o
  nodup := by
    intro id'
    by_cases same : id' = id
    · subst same
      rw [World.queueOf, World.getById_setFast, World.getById_push_self fresh]
      simp
    · rw [World.queueOf, World.getById_setFast, World.getById_push_of_ne fresh same]
      exact inv.nodup id'
  registered := by
    intro o ob id' found owned
    by_cases same : id' = id
    · subst same
      rw [World.getById_setFast, World.getById_push_self fresh]
      rfl
    · rw [World.getById_setFast, World.getById_push_of_ne fresh same]
      exact inv.registered found owned
  flag := by
    intro id' info' found
    by_cases same : id' = id
    · subst same
      rw [World.getById_setFast, World.getById_push_self fresh, Option.some.injEq] at found
      subst found
      rfl
    · rw [World.getById_setFast, World.getById_push_of_ne fresh same] at found
      exact inv.flag found
  active := by
    intro id'
    by_cases same : id' = id
    · subst same
      rw [World.liveId, World.getById_setFast, World.getById_push_self fresh]
      exact ⟨fun _ => ⟨t, World.shortId_setFast_self⟩, fun _ => rfl⟩
    · have others := inv.active id'
      rw [World.liveId, World.getById_setFast, World.getById_push_of_ne fresh same]
      rw [World.liveId] at others
      rw [others]
      constructor
      · rintro ⟨t', owned⟩
        have other : t' ≠ t := fun at_t => by simp [at_t, uninit] at owned
        exact ⟨t', by rw [World.shortId_setFast_of_ne other]; exact owned⟩
      · rintro ⟨t', owned⟩
        have other : t' ≠ t := by
          rintro rfl
          rw [World.shortId_setFast_self] at owned
          exact same (Option.some.inj owned).symm
        rw [World.shortId_setFast_of_ne other] at owned
        exact ⟨t', owned⟩
  distinct := by
    have unused : ∀ t', w.shortId t' ≠ some id := by
      intro t' owned
      have live := (inv.active id).mpr ⟨t', owned⟩
      rw [World.liveId, World.getById_fresh fresh] at live
      cases live
    intro t₁ t₂ id' first second
    by_cases at₁ : t₁ = t <;> by_cases at₂ : t₂ = t
    · rw [at₁, at₂]
    · subst at₁
      rw [World.shortId_setFast_self] at first
      rw [World.shortId_setFast_of_ne at₂, ← first] at second
      exact absurd second (unused t₂)
    · subst at₂
      rw [World.shortId_setFast_self] at second
      rw [World.shortId_setFast_of_ne at₁, ← second] at first
      exact absurd first (unused t₁)
    · rw [World.shortId_setFast_of_ne at₁] at first
      rw [World.shortId_setFast_of_ne at₂] at second
      exact inv.distinct first second

/-- A thread gives up its id, and the entry of that id is closed with an empty queue. -/
theorem die [DecidableEq Tid] {t : Tid} (inv : WorldInv (w.setInfo id info))
    (known : (w.getById id).isSome)
    (owned : w.shortId t = some id) (empty : info.queuedObjects.getD [] = []) :
    WorldInv ((w.setFast t ⟨.deadOrDying, none⟩).setInfo id ⟨.dead, none⟩) where
  object := inv.object
  queue := by
    intro id' o
    have before := inv.queue id' o
    by_cases same : id' = id
    · subst same
      rw [World.queueOf_setInfo_self known, empty] at before
      rw [World.queueOf_setInfo_self (by exact known)]
      exact before
    · rw [World.queueOf_setInfo_of_ne same] at before ⊢
      exact before
  nodup := by
    intro id'
    have before := inv.nodup id'
    by_cases same : id' = id
    · subst same
      rw [World.queueOf_setInfo_self (by exact known)]
      exact List.nodup_nil
    · rw [World.queueOf_setInfo_of_ne same] at before ⊢
      exact before
  registered := by
    intro o ob id' found owner
    have before := inv.registered found owner
    rw [World.getById_setInfo_isSome known] at before
    rw [World.getById_setInfo_isSome (by exact known)]
    exact before
  flag := by
    intro id' info' found
    by_cases same : id' = id
    · subst same
      rw [World.getById_setInfo_self (by exact known), Option.some.injEq] at found
      subst found
      rfl
    · rw [World.getById_setInfo_of_ne same] at found
      exact inv.flag (by rw [World.getById_setInfo_of_ne same]; exact found)
  active := by
    intro id'
    rw [World.shortId_setInfo]
    by_cases same : id' = id
    · subst same
      rw [World.liveId_setInfo_self (by exact known)]
      refine ⟨nofun, ?_⟩
      rintro ⟨t', owned'⟩
      by_cases at_t : t' = t
      · rw [at_t, World.shortId_setFast_self] at owned'
        cases owned'
      · rw [World.shortId_setFast_of_ne at_t] at owned'
        exact absurd (inv.distinct owned' owned) at_t
    · have before := inv.active id'
      rw [World.liveId_setInfo_of_ne same, World.shortId_setInfo] at before
      rw [World.liveId_setInfo_of_ne same, World.liveId_setFast, before]
      refine exists_congr fun t' => ?_
      by_cases at_t : t' = t
      · rw [at_t, World.shortId_setFast_self, owned, Option.some.injEq]
        exact ⟨fun h => absurd h.symm same, nofun⟩
      · rw [World.shortId_setFast_of_ne at_t]
  distinct := by
    intro t₁ t₂ id' first second
    have remaining : ∀ {t'}, (w.setFast t ⟨.deadOrDying, none⟩).shortId t' = some id' →
        w.shortId t' = some id' := by
      intro t' owned'
      by_cases at_t : t' = t
      · rw [at_t, World.shortId_setFast_self] at owned'
        cases owned'
      · rwa [World.shortId_setFast_of_ne at_t] at owned'
    exact inv.distinct (remaining first) (remaining second)

/-- No object, and only slots of threads that got no id. -/
theorem vacant (slots : Nat) (exhausted : Bool) :
    WorldInv (⟨.replicate slots none, exhausted, fun _ => ⟨.uninit, none⟩, fun _ => none⟩ :
      World pw Tid Oid) := by
  have unknown : ∀ id, World.getById (⟨.replicate slots none, exhausted, fun _ => ⟨.uninit, none⟩,
      fun _ => none⟩ : World pw Tid Oid) id = none := by
    intro id
    simp only [World.getById, List.getElem?_replicate]
    split <;> rfl
  exact {
    object := by rintro _ _ ⟨⟩
    queue := fun id o => by simp [World.queueOf, unknown]
    nodup := fun id => by simp [World.queueOf, unknown]
    registered := by rintro _ _ _ ⟨⟩
    flag := fun found => by simp [unknown] at found
    active := fun id => by simp [World.liveId, unknown, World.shortId,
      LocalThreadStateFast.existingShortId]
    distinct := by rintro _ _ _ ⟨⟩ }

/-- Before there are objects, an id can be that of a live or of a dead thread. -/
theorem exists_registered [DecidableEq Tid] (t : Tid) (id : ShortThreadId) (alive : Bool) :
    ∃ w : World pw Tid Oid, WorldInv w ∧ (∀ o, w.objects o = none) ∧ (w.getById id).isSome ∧
      (∀ t', w.shortId t' = some id → t' = t) ∧ w.liveId id = alive := by
  have fresh : id.index = (List.replicate id.index (none : Option (SharedThreadInfo Oid))).length := by
    rw [List.length_replicate]
  obtain ⟨w, inv, free, owned⟩ : ∃ w : World pw Tid Oid, WorldInv w ∧ (∀ o, w.objects o = none) ∧
      w.shortId t = some id :=
    ⟨_, (vacant id.index false).register rfl fresh, fun _ => rfl, World.shortId_setFast_self⟩
  have live := (inv.active id).mpr ⟨t, owned⟩
  have known := World.getById_of_liveId live
  cases alive with
  | true => exact ⟨w, inv, free, known, fun t' owned' => inv.distinct owned' owned, live⟩
  | false =>
      obtain ⟨info, found⟩ := Option.isSome_iff_exists.mp known
      have empty : info.queuedObjects.getD [] = [] := by
        have queueOf : w.queueOf id = info.queuedObjects.getD [] := by
          rw [World.queueOf, found, Option.bind_some]
        rw [← queueOf, List.eq_nil_iff_forall_not_mem]
        intro o listed
        obtain ⟨ob, found', _⟩ := (inv.queue id o).mp listed
        rw [free] at found'
        cases found'
      have whole : WorldInv (w.setInfo id info) := by rwa [World.setInfo_getById found]
      have inv' := whole.die known owned empty
      have closed : ((w.setFast t ⟨.deadOrDying, none⟩).setInfo id ⟨.dead, none⟩).liveId id = false :=
        World.liveId_setInfo_self (by exact known)
      refine ⟨_, inv', free, ?_, ?_, closed⟩
      · rw [World.getById_setInfo_self (by exact known)]
        rfl
      · intro t' owned'
        have live' := (inv'.active id).mpr ⟨t', owned'⟩
        rw [closed] at live'
        cases live'

end WorldInv

end BiasedRc
