import BiasedRc.Calls
import BiasedRc.Destructors

/-! # What holds between two steps of nested destructors

The registry, the queues and the headers keep the invariant they have between
whole calls; objects wait for their owner in its queue or in what is left of that
queue while it is dropped. Added to this are the books on handles: the calls on a
stack own no more handles than the thread has, every handle stored in a value is
counted for that value, and the fields of a destroyed value belong to a destructor
that is still running.
-/

namespace BiasedRc

open Tally Outcome

section Headers

variable {pw : PointerWidth} {Tid : Type} [DecidableEq Tid] [Fintype Tid] {ob : Object pw Tid}
  {t : Tid} {thisId : Option ShortThreadId}

/-- What merging the counts leaves, with these weak handles. -/
structure Object.Settles (ob : Object pw Tid) (weak : Tid → Nat) (ob' : Object pw Tid) : Prop where
  inv : ObjectInv ob'
  merged : ob'.header.shared.merged = true
  strong : ob'.strong = ob.strong
  weak : ob'.weak = weak

/-- A value may be destroyed with the weak reference in a guard if it may be at once. -/
theorem ObjectInv.beginDealloc (inv : ObjectInv ob.dealloc) (covered : 1 ≤ ob.weakCount.toNat)
    (allocated : ob.freed = false) : ObjectInv (ob.beginDealloc t) where
  owned := inv.owned
  released := inv.released
  unqueued := inv.unqueued
  pushed := inv.pushed
  premature := inv.premature
  weakCount := by
    have count := inv.weakCount
    have fewer := Object.dropWeak_weakCount covered
    simp only [Object.dealloc, Object.dropWeak, Object.beginDealloc, total_raise] at count fewer ⊢
    omega
  freed := by
    simp only [Object.beginDealloc, allocated, Bool.false_eq_true, false_iff]
    omega
  destroyed := inv.destroyed

/-- What the operations on the strong counts leave alone. -/
structure Object.SameMemory (ob ob' : Object pw Tid) : Prop where
  weakCount : ob'.weakCount = ob.weakCount
  freed : ob'.freed = ob.freed
  weak : ob'.weak = ob.weak
  destroyed : ob'.destroyed = ob.destroyed

omit [Fintype Tid] in
theorem Object.releaseStrong_sameMemory :
    Yields (fun _ => True) (fun result => ob.SameMemory result.1) (ob.releaseStrong t thisId) := by
  simp only [releaseStrong]
  cases ob.header.biased.decrementBiased thisId with
  | store new => exact ⟨rfl, rfl, rfl, rfl⟩
  | slow => exact ⟨rfl, rfl, rfl, rfl⟩
  | notOwner =>
      simp only [releaseShared]
      cases ob.header.shared.decremented with
      | error fault => trivial
      | ok new =>
          simp only [bind, Except.bind]
          split
          · exact ⟨rfl, rfl, rfl, rfl⟩
          · split <;> exact ⟨rfl, rfl, rfl, rfl⟩

omit [DecidableEq Tid] [Fintype Tid] in
theorem Object.mergeCounts_sameMemory (id : ShortThreadId) :
    Yields (fun _ => True) (fun result => ob.SameMemory result.1) (ob.mergeCounts id) := by
  simp only [mergeCounts]
  split
  · trivial
  · cases ob.header.shared.mergedWith ob.header.biased.biasedCount with
    | error fault => trivial
    | ok new =>
        simp only [bind, Except.bind]
        split
        · trivial
        · exact ⟨rfl, rfl, rfl, rfl⟩

namespace ObjectInv

omit [DecidableEq Tid] in
theorem covered (inv : ObjectInv ob) (undestroyed : ob.destroyed = 0) :
    1 ≤ ob.weakCount.toNat := by
  have count := inv.weakCount
  omega

/-- A drop whose caller has still to destroy the value. -/
theorem releaseStrong (inv : ObjectInv ob) (holds : 1 ≤ ob.strong t)
    (unqueued : ob.header.biased.decrementBiased thisId = .slow → ob.header.shared.queued = false) :
    Yields (fun _ => False)
      (fun result =>
        match result.2 with
        | .kept => ob.Becomes (lower ob.strong t) ob.weak result.1 ∧ result.1.destroyed = 0
        | .dead => ob.Becomes (lower ob.strong t) (raise ob.weak t) (result.1.beginDealloc t)
        | .won => ob.Won (lower ob.strong t) result.1)
      (ob.releaseStrong t thisId) := by
  have undestroyed := inv.held_undestroyed (holds.trans (le_total ob.strong t))
  have dropped := inv.decrementStrong holds unqueued
  rw [Object.decrementStrong_eq, yields_map] at dropped
  refine dropped.mono_eq ?_
  rintro ⟨ob', released⟩ returned result
  obtain ⟨weakCount, freed, weak, destroyed⟩ := Object.releaseStrong_sameMemory.of_ok returned
  cases released with
  | kept => exact ⟨result, destroyed.trans undestroyed⟩
  | won => exact result
  | dead =>
      exact {
        inv := result.inv.beginDealloc (weakCount ▸ inv.covered undestroyed)
          (freed ▸ inv.not_freed_of_strong holds)
        entry := ⟨result.entry.awaits, result.entry.owner⟩
        strong := result.strong
        weak := congrArg (raise · t) weak
        sunk := result.sunk }

/-- A merge whose caller has still to destroy the value. -/
theorem mergeCounts (inv : ObjectInv ob) {id : ShortThreadId} (waits : ob.awaits id) :
    Yields (fun fault => fault.Overflow ∧ ¬ ob.Sunk)
      (fun result =>
        if result.2 then ob.Settles (raise ob.weak t) (result.1.beginDealloc t)
        else ob.Settles ob.weak result.1 ∧ result.1.destroyed = 0)
      (ob.mergeCounts id) := by
  have undestroyed := inv.unmerged_undestroyed waits.1
  have merging := inv.explicitMerge waits
  rw [Object.explicitMerge_eq, yields_map] at merging
  refine merging.mono_eq ?_
  rintro ⟨ob', dead⟩ returned result
  obtain ⟨weakCount, freed, weak, destroyed⟩ := (Object.mergeCounts_sameMemory id).of_ok returned
  cases dead with
  | false =>
      exact ⟨⟨result.inv, result.merged, result.strong, result.weak⟩, destroyed.trans undestroyed⟩
  | true =>
      exact {
        inv := result.inv.beginDealloc (weakCount ▸ inv.covered undestroyed)
          (freed ▸ inv.not_freed_of_unmerged waits.1)
        merged := result.merged
        strong := result.strong
        weak := congrArg (raise · t) weak }

omit [DecidableEq Tid] in
/-- The value is not destroyed by a change that takes no strong handle away. -/
theorem undestroyed_of_adjusts (inv : ObjectInv ob) (undestroyed : ob.destroyed = 0) {strong weak}
    {ob' : Object pw Tid} (next : ob.Adjusts strong weak ob') (more : total ob.strong ≤ total strong) :
    ob'.destroyed = 0 := by
  by_cases held : total ob.strong = 0
  · -- without handles an object that is not destroyed waits in a queue, and still does
    have unmerged : ob.header.shared.merged = false := by
      rw [Bool.eq_false_iff]
      intro merged
      have once := inv.destroyed
      rw [if_pos ⟨merged, held⟩, undestroyed] at once
      cases once
    obtain ⟨id, owner, positive, split⟩ := inv.owned unmerged
    have queued : ob.header.shared.queued = true := by
      by_contra unqueued
      have := inv.unqueued unmerged (by simpa using unqueued)
      omega
    exact next.inv.unmerged_undestroyed ((next.entry.awaits id).mpr ⟨unmerged, queued, owner⟩).1
  · exact next.inv.held_undestroyed (by rw [next.strong]; omega)

end ObjectInv

end Headers

section Queues

variable {pw : PointerWidth} {Tid Oid : Type}

/-- What the thread registry promises about live and dead threads. -/
structure RegistryInv (w : World pw Tid Oid) : Prop where
  flag : ∀ {id info}, w.getById id = some info →
    info.queuedObjects.isSome = info.stateFlag.isLive
  active : ∀ id, w.liveId id = true ↔ ∃ t, w.shortId t = some id
  distinct : ∀ {t t' id}, w.shortId t = some id → w.shortId t' = some id → t = t'

/-- `WorldInv`, with the objects that are left in queues being dropped. -/
structure QueuesInv [Fintype Tid] (w : World pw Tid Oid) (orphaned : ShortThreadId → List Oid) : Prop
    extends RegistryInv w where
  object : ∀ {o ob}, w.objects o = some ob → ObjectInv ob
  queue : ∀ id o, o ∈ w.queueOf id ++ orphaned id ↔ ∃ ob, w.objects o = some ob ∧ ob.awaits id
  nodup : ∀ id, (w.queueOf id ++ orphaned id).Nodup
  registered : ∀ {o ob id}, w.objects o = some ob → ob.header.biased.ownerId = some id →
    (w.getById id).isSome
  orphans : ∀ {id}, w.liveId id = true → orphaned id = []

variable {w w' : World pw Tid Oid} {id : ShortThreadId} {info : SharedThreadInfo Oid}

namespace RegistryInv

theorem of_views (inv : RegistryInv w) (getById : w'.getById = w.getById)
    (shortId : w'.shortId = w.shortId) : RegistryInv w' where
  flag found := inv.flag (getById ▸ found)
  active id := by
    rw [World.liveId, getById, shortId]
    exact inv.active id
  distinct owned owned' := inv.distinct (shortId ▸ owned) (shortId ▸ owned')

/-- The entry of one registered thread changes, which stays as live as it was. -/
theorem setInfo (inv : RegistryInv w) (known : (w.getById id).isSome)
    (flag : info.queuedObjects.isSome = info.stateFlag.isLive)
    (live : info.stateFlag.isLive = w.liveId id) : RegistryInv (w.setInfo id info) where
  flag := by
    intro id' info' found
    by_cases same : id' = id
    · rw [same, World.getById_setInfo_self known, Option.some.injEq] at found
      exact found ▸ flag
    · rw [World.getById_setInfo_of_ne same] at found
      exact inv.flag found
  active := by
    intro id'
    rw [World.shortId_setInfo]
    by_cases same : id' = id
    · rw [same, World.liveId_setInfo_self known, live]
      exact inv.active id
    · rw [World.liveId_setInfo_of_ne same]
      exact inv.active id'
  distinct := inv.distinct

/-- A thread that registers under an id that nobody had. -/
theorem register [DecidableEq Tid] (inv : RegistryInv w) {t : Tid} (uninit : w.shortId t = none)
    (fresh : id.index = w.threads.length) :
    RegistryInv (World.setFast { w with threads := w.threads ++ [some ⟨.live, some []⟩] } t
      ⟨.active, some id⟩) where
  flag := by
    intro id' info' found
    by_cases same : id' = id
    · rw [same, World.getById_setFast, World.getById_push_self fresh, Option.some.injEq] at found
      subst found
      rfl
    · rw [World.getById_setFast, World.getById_push_of_ne fresh same] at found
      exact inv.flag found
  active := by
    intro id'
    by_cases same : id' = id
    · subst same
      rw [World.liveId, World.getById_setFast, World.getById_push_self fresh]
      exact ⟨fun _ => ⟨t, World.shortId_setFast_self⟩, fun _ => rfl⟩
    · have others := inv.active id'
      rw [World.liveId] at others
      rw [World.liveId, World.getById_setFast, World.getById_push_of_ne fresh same, others]
      refine exists_congr fun t' => ?_
      by_cases at_t : t' = t
      · rw [at_t, World.shortId_setFast_self, uninit]
        exact ⟨by rintro ⟨⟩, fun owned => absurd (Option.some.inj owned).symm same⟩
      · rw [World.shortId_setFast_of_ne at_t]
        rfl
  distinct := by
    have unused : ∀ t', w.shortId t' ≠ some id := by
      intro t' owned
      have live := (inv.active id).mpr ⟨t', owned⟩
      rw [World.liveId, World.getById_fresh fresh] at live
      cases live
    intro t₁ t₂ id' first second
    by_cases at₁ : t₁ = t <;> by_cases at₂ : t₂ = t
    · rw [at₁, at₂]
    · subst at₁
      rw [World.shortId_setFast_self] at first
      rw [World.shortId_setFast_of_ne at₂, ← first] at second
      exact absurd second (unused t₂)
    · subst at₂
      rw [World.shortId_setFast_self] at second
      rw [World.shortId_setFast_of_ne at₁, ← second] at first
      exact absurd first (unused t₁)
    · rw [World.shortId_setFast_of_ne at₁] at first
      rw [World.shortId_setFast_of_ne at₂] at second
      exact inv.distinct first second

/-- A thread gives up its id and its queue. -/
theorem exit [DecidableEq Tid] (inv : RegistryInv w) {t : Tid} (owned : w.shortId t = some id)
    (known : (w.getById id).isSome) :
    RegistryInv ((w.setFast t ⟨.deadOrDying, none⟩).setInfo id ⟨.dying, none⟩) where
  flag := by
    intro id' info' found
    by_cases same : id' = id
    · rw [same, World.getById_setInfo_self (by exact known), Option.some.injEq] at found
      subst found
      rfl
    · rw [World.getById_setInfo_of_ne same] at found
      exact inv.flag found
  active := by
    intro id'
    rw [World.shortId_setInfo]
    by_cases same : id' = id
    · subst same
      rw [World.liveId_setInfo_self (by exact known)]
      refine ⟨nofun, ?_⟩
      rintro ⟨t', owned'⟩
      by_cases at_t : t' = t
      · rw [at_t, World.shortId_setFast_self] at owned'
        cases owned'
      · rw [World.shortId_setFast_of_ne at_t] at owned'
        exact absurd (inv.distinct owned' owned) at_t
    · rw [World.liveId_setInfo_of_ne same, World.liveId_setFast, inv.active]
      refine exists_congr fun t' => ?_
      by_cases at_t : t' = t
      · rw [at_t, World.shortId_setFast_self, owned, Option.some.injEq]
        exact ⟨fun h => absurd h.symm same, nofun⟩
      · rw [World.shortId_setFast_of_ne at_t]
  distinct := by
    have remaining : ∀ {t' id'}, (w.setFast t ⟨.deadOrDying, none⟩).shortId t' = some id' →
        w.shortId t' = some id' := by
      intro t' id' owned'
      by_cases at_t : t' = t
      · rw [at_t, World.shortId_setFast_self] at owned'
        cases owned'
      · rwa [World.shortId_setFast_of_ne at_t] at owned'
    intro _ _ _ first second
    exact inv.distinct (remaining first) (remaining second)

end RegistryInv

variable [Fintype Tid] {orphaned orphaned' : ShortThreadId → List Oid} {o : Oid}
  {ob ob' ob'' : Object pw Tid}

namespace QueuesInv

/-- One object changes together with where it waits. -/
theorem change [DecidableEq Oid] (inv : QueuesInv w orphaned) (registry : RegistryInv w')
    (sound : ObjectInv ob') (objects : w'.objects = Function.update w.objects o (some ob'))
    (known : ∀ id, (w.getById id).isSome → (w'.getById id).isSome)
    (registered : ∀ id, ob'.header.biased.ownerId = some id → (w'.getById id).isSome)
    (here : ∀ id, o ∈ w'.queueOf id ++ orphaned' id ↔ ob'.awaits id)
    (others : ∀ id o', o' ≠ o →
      (o' ∈ w'.queueOf id ++ orphaned' id ↔ o' ∈ w.queueOf id ++ orphaned id))
    (nodup : ∀ id, (w'.queueOf id ++ orphaned' id).Nodup)
    (orphans : ∀ {id}, w'.liveId id = true → orphaned' id = []) : QueuesInv w' orphaned' where
  toRegistryInv := registry
  object := by
    intro o' ob found
    by_cases same : o' = o
    · rw [objects, same, Function.update_self, Option.some.injEq] at found
      exact found ▸ sound
    · rw [objects, Function.update_of_ne same] at found
      exact inv.object found
  queue := by
    intro id o'
    by_cases same : o' = o
    · rw [same, here, objects, Function.update_self]
      simp
    · rw [others id o' same, inv.queue, objects, Function.update_of_ne same]
  nodup := nodup
  registered := by
    intro o' ob id found owned
    by_cases same : o' = o
    · rw [objects, same, Function.update_self, Option.some.injEq] at found
      exact registered id (found ▸ owned)
    · rw [objects, Function.update_of_ne same] at found
      exact known id (inv.registered found owned)
  orphans := orphans

theorem setObject [DecidableEq Oid] (inv : QueuesInv w orphaned) (sound : ObjectInv ob')
    (entry : ∀ id, ob'.awaits id ↔ ∃ ob, w.objects o = some ob ∧ ob.awaits id)
    (registered : ∀ id, ob'.header.biased.ownerId = some id → (w.getById id).isSome) :
    QueuesInv (w.setObject o ob') orphaned :=
  inv.change (inv.toRegistryInv.of_views rfl rfl) sound rfl (fun _ known => known) registered
    (fun id => (inv.queue id o).trans (entry id).symm) (fun _ _ _ => Iff.rfl) inv.nodup inv.orphans

theorem adjusts [DecidableEq Oid] (inv : QueuesInv w orphaned) (found : w.objects o = some ob)
    {strong weak} (next : ob.Adjusts strong weak ob') : QueuesInv (w.setObject o ob') orphaned := by
  refine inv.setObject next.inv ?_ fun id owned => inv.registered found (next.entry.owner id owned)
  intro id
  rw [next.entry.awaits, found]
  simp

/-- An object that nobody waits for is merged in place. -/
theorem mergeInPlace [DecidableEq Oid] (inv : QueuesInv w orphaned) (found : w.objects o = some ob)
    (unqueued : ob.header.shared.queued = false) {weak} (settles : ob'.Settles weak ob'') :
    QueuesInv (w.setObject o ob'') orphaned := by
  have unowned := (settles.inv.released settles.merged).1
  refine inv.setObject settles.inv ?_ (by simp [unowned])
  intro id
  rw [found]
  simp [Object.not_awaits_of_merged settles.merged, Object.not_awaits_of_unqueued unqueued]

theorem waiting (inv : QueuesInv w orphaned) (listed : o ∈ w.queueOf id ++ orphaned id) :
    ∃ ob, w.objects o = some ob ∧ ob.awaits id := (inv.queue id o).mp listed

theorem absent (inv : QueuesInv w orphaned) (found : w.objects o = some ob)
    (unqueued : ob.header.shared.queued = false) : o ∉ w.queueOf id ++ orphaned id := by
  intro listed
  obtain ⟨ob', found', waits⟩ := inv.waiting listed
  rw [found, Option.some.injEq] at found'
  exact Object.not_awaits_of_unqueued unqueued id (found' ▸ waits)

/-- A drop that won the right to queue the object appends it to its owner's queue. -/
theorem push [DecidableEq Oid] (inv : QueuesInv w orphaned) (found : w.objects o = some ob) {strong}
    (won : ob.Won strong ob') (owner : ob.header.biased.ownerId = some id)
    (listed : w.getById id = some info) {queue} (queued : info.queuedObjects = some queue) :
    QueuesInv ((w.setObject o { ob' with pushed := ob'.pushed + 1 }).setInfo id
      ⟨info.stateFlag.markQueued, some (queue ++ [o])⟩) orphaned := by
  have known : (w.getById id).isSome := by rw [listed]; rfl
  have live := inv.flag listed
  rw [queued, Option.isSome_some] at live
  have marked : info.stateFlag.markQueued.isLive = true := by
    rw [ThreadStateFlag.markQueued]
    split
    · rfl
    · exact live.symm
  have isLive : w.liveId id = true := by rw [World.liveId, listed, Option.any_some, live]
  have queueOf : w.queueOf id = queue := by
    rw [World.queueOf, listed, Option.bind_some, queued, Option.getD_some]
  have absent : ∀ id', o ∉ w.queueOf id' ++ orphaned id' := fun _ => inv.absent found won.unqueued
  have alone := inv.orphans isLive
  have sound : ObjectInv { ob' with pushed := ob'.pushed + 1 } :=
    { won.inv with pushed := by simp [won.unpushed, won.queued] }
  have unchanged : RegistryInv (w.setObject o { ob' with pushed := ob'.pushed + 1 }) :=
    inv.toRegistryInv.of_views rfl rfl
  refine inv.change (unchanged.setInfo (by exact known) marked.symm (marked.trans isLive.symm)) sound
    rfl ?_ ?_ ?_ ?_ ?_ ?_
  · intro id' known'
    rwa [World.getById_setInfo_isSome (by exact known)]
  · intro id' owned
    rw [won.biased] at owned
    rw [World.getById_setInfo_isSome (by exact known)]
    exact inv.registered found owned
  · intro id'
    by_cases same : id' = id
    · subst same
      rw [World.queueOf_setInfo_self (by exact known)]
      simp only [Option.getD_some, List.mem_append, List.mem_singleton, or_true, true_or, true_iff]
      exact ⟨won.unmerged, won.queued, won.biased ▸ owner⟩
    · rw [World.queueOf_setInfo_of_ne same]
      refine iff_of_false (absent id') ?_
      rintro ⟨_, _, owned⟩
      rw [won.biased, owner] at owned
      exact same (Option.some.inj owned).symm
  · intro id' o' other
    by_cases same : id' = id
    · subst same
      rw [World.queueOf_setInfo_self (by exact known), queueOf]
      simp [other]
    · rw [World.queueOf_setInfo_of_ne same, World.queueOf_setObject]
  · intro id'
    by_cases same : id' = id
    · subst same
      have nodup := inv.nodup id'
      have fresh := absent id'
      rw [queueOf, alone, List.append_nil] at nodup fresh
      rw [World.queueOf_setInfo_self (by exact known), alone, List.append_nil, Option.getD_some,
        List.nodup_append]
      refine ⟨nodup, List.nodup_singleton o, ?_⟩
      rintro o' listed' o'' last rfl
      rw [List.mem_singleton] at last
      exact fresh (last ▸ listed')
    · rw [World.queueOf_setInfo_of_ne same]
      exact inv.nodup id'
  · intro id' live'
    by_cases same : id' = id
    · rw [same]
      exact alone
    · rw [World.liveId_setInfo_of_ne same] at live'
      exact inv.orphans live'

/-- The head of a queue is merged. -/
theorem pop [DecidableEq Oid] (inv : QueuesInv w orphaned) {flag rest}
    (listed : w.getById id = some ⟨flag, some (o :: rest)⟩) (found : w.objects o = some ob) {weak}
    (settles : ob.Settles weak ob') :
    QueuesInv ((w.setInfo id ⟨flag, some rest⟩).setObject o ob') orphaned := by
  have known : (w.getById id).isSome := by rw [listed]; rfl
  have live : flag.isLive = w.liveId id := by rw [World.liveId, listed, Option.any_some]
  have flagged := inv.flag listed
  have queueOf : w.queueOf id = o :: rest := by
    rw [World.queueOf, listed, Option.bind_some, Option.getD_some]
  have nodup := inv.nodup id
  have first : o ∈ w.queueOf id ++ orphaned id := by rw [queueOf]; simp
  obtain ⟨ob₀, found₀, waits⟩ := inv.waiting first
  rw [found, Option.some.injEq] at found₀
  subst found₀
  have unowned := (settles.inv.released settles.merged).1
  rw [queueOf, List.cons_append, List.nodup_cons] at nodup
  have sameLive : (w.setInfo id ⟨flag, some rest⟩).liveId = w.liveId := by
    funext id'
    by_cases same : id' = id
    · rw [same, World.liveId_setInfo_self known, live]
    · rw [World.liveId_setInfo_of_ne same]
  have popped : RegistryInv (w.setInfo id ⟨flag, some rest⟩) :=
    inv.toRegistryInv.setInfo known flagged live
  refine inv.change (popped.of_views rfl rfl) settles.inv rfl ?_ ?_ ?_ ?_ ?_ ?_
  · intro id' known'
    rw [World.getById_setObject, World.getById_setInfo_isSome known]
    exact known'
  · intro id' owned
    rw [unowned] at owned
    cases owned
  · intro id'
    simp only [Object.not_awaits_of_merged settles.merged, iff_false]
    by_cases same : id' = id
    · rw [same, World.queueOf_setObject, World.queueOf_setInfo_self known]
      exact nodup.1
    · rw [World.queueOf_setObject, World.queueOf_setInfo_of_ne same, inv.queue]
      rintro ⟨ob₁, found₁, _, _, owner⟩
      rw [found, Option.some.injEq] at found₁
      subst found₁
      exact same (Option.some.inj (owner.symm.trans waits.2.2))
  · intro id' o' other
    by_cases same : id' = id
    · rw [same, World.queueOf_setObject, World.queueOf_setInfo_self known, queueOf]
      simp [other]
    · rw [World.queueOf_setObject, World.queueOf_setInfo_of_ne same]
  · intro id'
    by_cases same : id' = id
    · rw [same, World.queueOf_setObject, World.queueOf_setInfo_self known]
      exact nodup.2
    · rw [World.queueOf_setObject, World.queueOf_setInfo_of_ne same]
      exact inv.nodup id'
  · intro id' live'
    rw [World.liveId_setObject, sameLive] at live'
    exact inv.orphans live'

/-- The head of a queue that is being dropped is merged. -/
theorem popOrphan [DecidableEq Oid] (inv : QueuesInv w orphaned) {rest}
    (listed : orphaned id = o :: rest)
    (found : w.objects o = some ob) {weak} (settles : ob.Settles weak ob') :
    QueuesInv (w.setObject o ob') (Function.update orphaned id rest) := by
  have dead : w.liveId id = false := by
    rw [Bool.eq_false_iff]
    intro live
    rw [inv.orphans live] at listed
    cases listed
  have nodup := inv.nodup id
  have first : o ∈ w.queueOf id ++ orphaned id := by rw [listed]; simp
  obtain ⟨ob₀, found₀, waits⟩ := inv.waiting first
  rw [found, Option.some.injEq] at found₀
  subst found₀
  have unowned := (settles.inv.released settles.merged).1
  rw [listed, List.nodup_append, List.nodup_cons] at nodup
  obtain ⟨nodupQueue, ⟨absent, nodupRest⟩, apart⟩ := nodup
  refine inv.change (inv.toRegistryInv.of_views rfl rfl) settles.inv rfl (fun _ known => known)
    ?_ ?_ ?_ ?_ ?_
  · intro id' owned
    rw [unowned] at owned
    cases owned
  · intro id'
    simp only [Object.not_awaits_of_merged settles.merged, iff_false, World.queueOf_setObject]
    by_cases same : id' = id
    · rw [same, Function.update_self, List.mem_append, not_or]
      exact ⟨fun queued => apart o queued o List.mem_cons_self rfl, absent⟩
    · rw [Function.update_of_ne same, inv.queue]
      rintro ⟨ob₁, found₁, _, _, owner⟩
      rw [found, Option.some.injEq] at found₁
      subst found₁
      exact same (Option.some.inj (owner.symm.trans waits.2.2))
  · intro id' o' other
    rw [World.queueOf_setObject]
    by_cases same : id' = id
    · rw [same, Function.update_self, listed]
      simp [other]
    · rw [Function.update_of_ne same]
  · intro id'
    rw [World.queueOf_setObject]
    by_cases same : id' = id
    · rw [same, Function.update_self, List.nodup_append]
      exact ⟨nodupQueue, nodupRest, fun o₁ queued o₂ left =>
        apart o₁ queued o₂ (List.mem_cons_of_mem o left)⟩
    · rw [Function.update_of_ne same]
      exact inv.nodup id'
  · intro id' live
    by_cases same : id' = id
    · rw [same, World.liveId_setObject, dead] at live
      cases live
    · rw [Function.update_of_ne same]
      exact inv.orphans live

/-- No object changes, and each waits where it did. -/
theorem sameObjects (inv : QueuesInv w orphaned) (registry : RegistryInv w')
    (objects : w'.objects = w.objects)
    (known : ∀ id, (w.getById id).isSome → (w'.getById id).isSome)
    (queues : ∀ id, w'.queueOf id ++ orphaned' id = w.queueOf id ++ orphaned id)
    (orphans : ∀ {id}, w'.liveId id = true → orphaned' id = []) : QueuesInv w' orphaned' where
  toRegistryInv := registry
  object found := inv.object (objects ▸ found)
  queue id o := by
    rw [queues, objects]
    exact inv.queue id o
  nodup id := by
    rw [queues]
    exact inv.nodup id
  registered found owned := known _ (inv.registered (objects ▸ found) owned)
  orphans := orphans

/-- The entry of a registered thread changes, but not its queue. -/
theorem setInfo (inv : QueuesInv w orphaned) (known : (w.getById id).isSome)
    (flag : info.queuedObjects.isSome = info.stateFlag.isLive)
    (live : info.stateFlag.isLive = w.liveId id)
    (queue : info.queuedObjects.getD [] = w.queueOf id) :
    QueuesInv (w.setInfo id info) orphaned := by
  have sameLive : (w.setInfo id info).liveId = w.liveId := by
    funext id'
    by_cases same : id' = id
    · rw [same, World.liveId_setInfo_self known, live]
    · rw [World.liveId_setInfo_of_ne same]
  refine inv.sameObjects (inv.toRegistryInv.setInfo known flag live) rfl ?_ ?_ ?_
  · intro id' known'
    rwa [World.getById_setInfo_isSome known]
  · intro id'
    by_cases same : id' = id
    · rw [same, World.queueOf_setInfo_self known, queue]
    · rw [World.queueOf_setInfo_of_ne same]
  · intro id' live'
    rw [sameLive] at live'
    exact inv.orphans live'

/-- Nobody waits for an id that was never given out. -/
theorem unknown (inv : QueuesInv w orphaned) (fresh : w.getById id = none) : orphaned id = [] := by
  rw [List.eq_nil_iff_forall_not_mem]
  intro o left
  obtain ⟨ob, found, waits⟩ := inv.waiting (List.mem_append_right (w.queueOf id) left)
  have known := inv.registered found waits.2.2
  rw [fresh] at known
  cases known

theorem initThread [DecidableEq Tid] (inv : QueuesInv w orphaned) {t : Tid}
    (uninit : w.shortId t = none) : QueuesInv (w.initThread t).1 orphaned := by
  simp only [World.initThread]
  split
  · exact inv
  · split
    · have same : World.getById { w with threads := w.threads ++ [none], shortThreadIdsExhausted := true } =
          w.getById := by
        funext id
        exact World.getById_push_none
      refine inv.sameObjects (inv.toRegistryInv.of_views same rfl) rfl ?_ ?_ ?_
      · intro id known
        rwa [same]
      · intro id
        rw [World.queueOf, same, World.queueOf]
      · intro id live
        rw [World.liveId, same] at live
        exact inv.orphans live
    · rename_i id fits
      have fresh := ShortThreadId.index_ofIndex fits
      have none := World.getById_fresh fresh
      refine inv.sameObjects (inv.toRegistryInv.register uninit fresh) rfl ?_ ?_ ?_
      · intro id' known
        have other : id' ≠ id := by
          rintro rfl
          rw [none] at known
          cases known
        rwa [World.getById_setFast, World.getById_push_of_ne fresh other]
      · intro id'
        by_cases same : id' = id
        · rw [same, World.queueOf, World.getById_setFast, World.getById_push_self fresh, World.queueOf,
            none]
          rfl
        · rw [World.queueOf, World.getById_setFast, World.getById_push_of_ne fresh same, World.queueOf]
      · intro id' live
        by_cases same : id' = id
        · rw [same]
          exact inv.unknown none
        · rw [World.liveId, World.getById_setFast, World.getById_push_of_ne fresh same] at live
          exact inv.orphans live

theorem withCurrent [DecidableEq Tid] (inv : QueuesInv w orphaned) {t : Tid} :
    QueuesInv (w.withCurrent t).1 orphaned := by
  simp only [World.withCurrent]
  cases status : (w.fast t).status with
  | uninit =>
      exact inv.initThread (by simp only [World.shortId, LocalThreadStateFast.existingShortId, status])
  | active => exact inv
  | deadOrDying => exact inv

/-- A thread starts to die; what is in its queue is left to the drop of the queue. -/
theorem exit [DecidableEq Tid] (inv : QueuesInv w orphaned) {t : Tid}
    (owned : w.shortId t = some id) (found : w.getById id = some info) :
    QueuesInv ((w.setFast t ⟨.deadOrDying, none⟩).setInfo id ⟨.dying, none⟩)
      (Function.update orphaned id (info.queuedObjects.getD [])) := by
  have known : (w.getById id).isSome := by rw [found]; rfl
  have live := (inv.active id).mpr ⟨t, owned⟩
  have queueOf : w.queueOf id = info.queuedObjects.getD [] := by
    rw [World.queueOf, found, Option.bind_some]
  refine inv.sameObjects (inv.toRegistryInv.exit owned known) rfl ?_ ?_ ?_
  · intro id' known'
    rw [World.getById_setInfo_isSome (by exact known)]
    exact known'
  · intro id'
    by_cases same : id' = id
    · rw [same, World.queueOf_setInfo_self (by exact known), Function.update_self, queueOf,
        inv.orphans live, List.append_nil]
      rfl
    · rw [World.queueOf_setInfo_of_ne same, Function.update_of_ne same]
      rfl
  · intro id' live'
    by_cases same : id' = id
    · rw [same, World.liveId_setInfo_self (by exact known)] at live'
      cases live'
    · rw [World.liveId_setInfo_of_ne same] at live'
      rw [Function.update_of_ne same]
      exact inv.orphans live'

end QueuesInv

namespace World

/-- An id whose thread has started to die stays so. -/
def Outlives (w w' : World pw Tid Oid) : Prop :=
  ∀ id, (w.getById id).isSome → w.liveId id = false → (w'.getById id).isSome ∧ w'.liveId id = false

omit [Fintype Tid] in
theorem Outlives.of_getById {w w' : World pw Tid Oid} (same : w'.getById = w.getById) :
    w.Outlives w' := by
  intro id known dead
  rw [liveId, same]
  exact ⟨known, dead⟩

omit [Fintype Tid] in
theorem Outlives.setInfo {w : World pw Tid Oid} (known : (w.getById id).isSome)
    (dead : info.stateFlag.isLive = true → w.liveId id = true) : w.Outlives (w.setInfo id info) := by
  intro id' known' dead'
  rw [World.getById_setInfo_isSome known]
  refine ⟨known', ?_⟩
  by_cases same : id' = id
  · rw [same] at dead' ⊢
    rw [World.liveId_setInfo_self known, Bool.eq_false_iff]
    intro live
    rw [dead live] at dead'
    cases dead'
  · rw [World.liveId_setInfo_of_ne same]
    exact dead'

omit [Fintype Tid] in
theorem Outlives.withCurrent [DecidableEq Tid] (w : World pw Tid Oid) (t : Tid) :
    w.Outlives (w.withCurrent t).1 := by
  simp only [World.withCurrent]
  split
  · simp only [World.initThread]
    split
    · exact .of_getById rfl
    · split
      · refine .of_getById ?_
        funext id
        exact World.getById_push_none
      · rename_i id fits
        have fresh := ShortThreadId.index_ofIndex fits
        intro id' known dead
        have other : id' ≠ id := by
          rintro rfl
          rw [World.getById_fresh fresh] at known
          cases known
        rw [liveId, World.getById_setFast, World.getById_push_of_ne fresh other]
        exact ⟨known, dead⟩
  · exact .of_getById rfl
  · exact .of_getById rfl

end World

end Queues

/-- The object that a handle points to. -/
def Handle.target {Oid : Type} : Handle Oid → Oid
  | .brc o | .weak o => o

namespace World

variable {pw : PointerWidth} {Tid Oid : Type}
  {w w' : World pw Tid Oid} {o : Oid} {ob : Object pw Tid}

theorem held_brc (found : w.objects o = some ob) : w.held (.brc o) = ob.strong := by
  funext t
  simp only [held, found, Option.map_some, Option.getD_some]

theorem held_weak (found : w.objects o = some ob) : w.held (.weak o) = ob.weak := by
  funext t
  simp only [held, found, Option.map_some, Option.getD_some]

theorem held_congr {handle : Handle Oid} (same : w'.objects handle.target = w.objects handle.target) :
    w'.held handle = w.held handle := by
  funext t
  cases handle <;> simp only [held, Handle.target] at same ⊢ <;> rw [same]

theorem held_setObject_of_ne [DecidableEq Oid] {handle : Handle Oid} (other : handle.target ≠ o) :
    (w.setObject o ob).held handle = w.held handle :=
  held_congr (objects_setObject_of_ne other)

theorem exists_of_held {handle : Handle Oid} {t : Tid} (held : 0 < w.held handle t) :
    ∃ ob, w.objects handle.target = some ob := by
  cases found : w.objects handle.target with
  | some ob => exact ⟨ob, rfl⟩
  | none => cases handle <;> simp_all [World.held, Handle.target]

end World

namespace Process

variable {pw : PointerWidth} {Tid Oid : Type} [DecidableEq Oid]

/-- The object is allocated and its value is not destroyed. -/
def Alive (s : Process pw Tid Oid) (o : Oid) : Prop :=
  ∃ ob, s.world.objects o = some ob ∧ ob.destroyed = 0

/-- Every call and every value is counted for the handles that it has. -/
structure Books (s : Process pw Tid Oid) : Prop where
  covered : ∀ t handle, s.reserved t handle ≤ s.world.held handle (.thread t)
  stored : ∀ o handle, (s.fields o).count handle = s.world.held handle (.value o)
  inside : ∀ o, s.fields o ≠ [] → s.Alive o ∨ ∃ t, .glue o ∈ s.stack t ∨ .aborts ∈ s.stack t
  buried : ∀ t id, .bury id ∈ s.stack t →
    (s.world.getById id).isSome ∧ s.world.liveId id = false
  orphans : ∀ id, s.orphaned id ≠ [] → ∃ t, .bury id ∈ s.stack t ∨ .aborts ∈ s.stack t

/-- The invariant of the process between two steps. -/
structure Inv [Fintype Oid] [Fintype Tid] (s : Process pw Tid Oid) : Prop extends s.Books where
  queues : QueuesInv s.world s.orphaned

/-- The calls that somebody still waits for are also on the new stack. -/
structure Keeps (s : Process pw Tid Oid) (t : Tid) (frames : List (Frame Oid)) : Prop where
  glue : ∀ o, .glue o ∈ s.stack t → .glue o ∈ frames ∨ .aborts ∈ frames ∨ s.fields o = []
  aborts : .aborts ∈ s.stack t → .aborts ∈ frames
  bury : ∀ id, .bury id ∈ s.stack t → .bury id ∈ frames ∨ .aborts ∈ frames ∨ s.orphaned id = []

/-- New counts for one object still cover the calls, and are the old ones for the values. -/
structure Accounts (s : Process pw Tid Oid) (o : Oid) (ob : Object pw (Holder Tid Oid))
    (brcs weaks : Holder Tid Oid → Nat) : Prop where
  strong : ∀ t, s.reserved t (.brc o) ≤ brcs (.thread t)
  weak : ∀ t, s.reserved t (.weak o) ≤ weaks (.thread t)
  strongStored : ∀ v, brcs (.value v) = ob.strong (.value v)
  weakStored : ∀ v, weaks (.value v) = ob.weak (.value v)

namespace Books

variable {s : Process pw Tid Oid} {t : Tid} {o : Oid} {ob ob' : Object pw (Holder Tid Oid)}
  {handle : Handle Oid} {frame : Frame Oid} {frames rest : List (Frame Oid)}

/-- The stack of one thread changes. -/
theorem setStack [DecidableEq Tid] (books : s.Books) (keeps : s.Keeps t frames)
    (owed : ∀ handle, (frames.countP fun frame => frame.owes = some handle) ≤
      s.world.held handle (.thread t))
    (buried : ∀ id, .bury id ∈ frames →
      (s.world.getById id).isSome ∧ s.world.liveId id = false) : (s.setStack t frames).Books where
  covered := by
    intro t' handle
    by_cases same : t' = t
    · rw [same, reserved, stack_setStack_self]
      exact owed handle
    · rw [reserved_of_stack (stack_setStack_of_ne same)]
      exact books.covered t' handle
  stored := books.stored
  inside := by
    intro o stored
    obtain alive | ⟨t', running⟩ := books.inside o stored
    · exact .inl alive
    · refine .inr ?_
      by_cases same : t' = t
      · subst same
        refine ⟨t', ?_⟩
        rw [stack_setStack_self]
        obtain running | aborting := running
        · obtain kept | aborting | empty := keeps.glue o running
          · exact .inl kept
          · exact .inr aborting
          · exact absurd empty stored
        · exact .inr (keeps.aborts aborting)
      · exact ⟨t', by rwa [stack_setStack_of_ne same]⟩
  buried := by
    intro t' id
    by_cases same : t' = t
    · rw [same, stack_setStack_self]
      exact buried id
    · rw [stack_setStack_of_ne same]
      exact books.buried t' id
  orphans := by
    intro id left
    obtain ⟨t', running⟩ := books.orphans id left
    by_cases same : t' = t
    · subst same
      refine ⟨t', ?_⟩
      rw [stack_setStack_self]
      obtain running | aborting := running
      · obtain kept | aborting | empty := keeps.bury id running
        · exact .inl kept
        · exact .inr aborting
        · exact absurd empty left
      · exact .inr (keeps.aborts aborting)
    · exact ⟨t', by rwa [stack_setStack_of_ne same]⟩

/-- Calls that the innermost code makes. -/
theorem push [DecidableEq Tid] (books : s.Books)
    (owed : ∀ handle, (frames.countP fun frame => frame.owes = some handle) + s.reserved t handle ≤
      s.world.held handle (.thread t))
    (buries : ∀ id, .bury id ∈ frames →
      (s.world.getById id).isSome ∧ s.world.liveId id = false) : (s.push t frames).Books := by
  refine books.setStack ⟨?_, ?_, ?_⟩ ?_ ?_
  · exact fun o running => .inl (List.mem_append_right frames running)
  · exact fun aborting => List.mem_append_right frames aborting
  · exact fun id running => .inl (List.mem_append_right frames running)
  · intro handle
    rw [List.countP_append]
    exact owed handle
  · intro id running
    obtain new | old := List.mem_append.mp running
    · exact buries id new
    · exact books.buried t id old

/-- The innermost call returns. -/
theorem pop [DecidableEq Tid] (books : s.Books) (top : s.stack t = frame :: rest)
    (glue : ∀ o, frame = .glue o → s.fields o = []) (aborts : frame ≠ .aborts)
    (bury : ∀ id, frame = .bury id → s.orphaned id = []) : (s.setStack t rest).Books := by
  refine books.setStack ⟨?_, ?_, ?_⟩ ?_ ?_
  · intro o running
    rw [top] at running
    obtain last | kept := List.mem_cons.mp running
    · exact .inr (.inr (glue o last.symm))
    · exact .inl kept
  · intro aborting
    rw [top] at aborting
    exact (List.mem_cons.mp aborting).resolve_left fun last => aborts last.symm
  · intro id running
    rw [top] at running
    obtain last | kept := List.mem_cons.mp running
    · exact .inr (.inr (bury id last.symm))
    · exact .inl kept
  · intro handle
    refine le_trans ?_ (books.covered t handle)
    rw [reserved, top, List.countP_cons]
    exact Nat.le_add_right ..
  · intro id running
    exact books.buried t id (top ▸ List.mem_cons_of_mem frame running)

/-- The handle of a call that returns is free. -/
theorem has_pop [DecidableEq Tid] (books : s.Books) (top : s.stack t = frame :: rest)
    (owes : frame.owes = some handle) : (s.setStack t rest).has t handle := by
  have covered := books.covered t handle
  rw [reserved, top, List.countP_cons, owes] at covered
  rw [has, reserved, stack_setStack_self]
  simp only [decide_true, if_true] at covered
  exact covered

/-- The world changes under the calls, which lose no handle. -/
theorem setWorld (books : s.Books) {w : World pw (Holder Tid Oid) Oid}
    (outlives : s.world.Outlives w)
    (covered : ∀ t handle, s.reserved t handle ≤ w.held handle (.thread t))
    (stored : ∀ o handle, w.held handle (.value o) = s.world.held handle (.value o))
    (alive : ∀ o, s.Alive o → (s.setWorld w).Alive o) : (s.setWorld w).Books where
  covered := covered
  stored o handle := (books.stored o handle).trans (stored o handle).symm
  inside o nonempty := (books.inside o nonempty).imp (alive o) id
  buried t id running := by
    obtain ⟨known, dead⟩ := books.buried t id running
    exact outlives id known dead
  orphans := books.orphans

theorem sameObjects (books : s.Books) {w : World pw (Holder Tid Oid) Oid}
    (outlives : s.world.Outlives w)
    (objects : w.objects = s.world.objects) : (s.setWorld w).Books := by
  have held : ∀ handle, w.held handle = s.world.held handle :=
    fun handle => World.held_congr (congrFun objects _)
  refine books.setWorld outlives ?_ ?_ ?_
  · intro t handle
    rw [held]
    exact books.covered t handle
  · intro o handle
    rw [held]
  · rintro o ⟨ob, found, undestroyed⟩
    exact ⟨ob, (congrFun objects o).trans found, undestroyed⟩

theorem covered_setObject (accounts : s.Accounts o ob ob'.strong ob'.weak) (books : s.Books) (t : Tid)
    (handle : Handle Oid) :
    s.reserved t handle ≤ (s.world.setObject o ob').held handle (.thread t) := by
  by_cases same : handle.target = o
  · cases handle with
    | brc o' =>
        obtain rfl : o' = o := same
        rw [World.held_brc World.objects_setObject_self]
        exact accounts.strong t
    | weak o' =>
        obtain rfl : o' = o := same
        rw [World.held_weak World.objects_setObject_self]
        exact accounts.weak t
  · rw [World.held_setObject_of_ne same]
    exact books.covered t handle

theorem stored_setObject (accounts : s.Accounts o ob ob'.strong ob'.weak)
    (found : s.world.objects o = some ob)
    (v : Oid) (handle : Handle Oid) :
    (s.world.setObject o ob').held handle (.value v) = s.world.held handle (.value v) := by
  by_cases same : handle.target = o
  · cases handle with
    | brc o' =>
        obtain rfl : o' = o := same
        rw [World.held_brc World.objects_setObject_self, World.held_brc found]
        exact accounts.strongStored v
    | weak o' =>
        obtain rfl : o' = o := same
        rw [World.held_weak World.objects_setObject_self, World.held_weak found]
        exact accounts.weakStored v
  · rw [World.held_setObject_of_ne same]

theorem alive_setObject (found : s.world.objects o = some ob)
    (kept : ob.destroyed = 0 → ob'.destroyed = 0) (o' : Oid) (alive : s.Alive o') :
    (s.setObject o ob').Alive o' := by
  obtain ⟨ob₀, found₀, undestroyed⟩ := alive
  by_cases same : o' = o
  · subst same
    rw [found, Option.some.injEq] at found₀
    subst found₀
    exact ⟨ob', World.objects_setObject_self, kept undestroyed⟩
  · exact ⟨ob₀, (World.objects_setObject_of_ne same).trans found₀, undestroyed⟩

theorem setObject (books : s.Books) (found : s.world.objects o = some ob)
    (accounts : s.Accounts o ob ob'.strong ob'.weak) (kept : ob.destroyed = 0 → ob'.destroyed = 0) :
    (s.setObject o ob').Books :=
  books.setWorld (.of_getById rfl) (covered_setObject accounts books) (stored_setObject accounts found)
    (alive_setObject found kept)

/-- A call starts to destroy a value; its destructor owns the weak reference of the
    strong ones. -/
theorem destroy [Fintype Oid] [Fintype Tid] [DecidableEq Tid] (books : s.Books)
    (found : s.world.objects o = some ob)
    (weak : (ob'.beginDealloc (.thread t)).weak = raise ob.weak (.thread t))
    (strong : ∀ t, s.reserved t (.brc o) ≤ ob'.strong (.thread t))
    (strongStored : ∀ v, ob'.strong (.value v) = ob.strong (.value v)) : (s.destroy t o ob').Books := by
  have covered : ∀ t', s.reserved t' (.weak o) ≤ ob.weak (.thread t') := by
    intro t'
    rw [← World.held_weak found]
    exact books.covered t' (.weak o)
  have accounts : s.Accounts o ob ob'.strong (ob'.beginDealloc (.thread t)).weak := {
    strong := strong
    weak := fun t' => by
      rw [weak]
      exact (covered t').trans (le_raise ..)
    strongStored := strongStored
    weakStored := fun v => by rw [weak, raise_of_ne _ (by rintro ⟨⟩)] }
  have stack : ∀ t', ∀ frame ∈ s.stack t', frame ∈ (s.destroy t o ob').stack t' :=
    fun t' frame running => mem_stack_push running
  exact {
    covered := by
      intro t' handle
      by_cases own : t' = t ∧ handle = .weak o
      · obtain ⟨rfl, rfl⟩ := own
        change _ ≤ (s.world.setObject o (ob'.beginDealloc (.thread t'))).held (.weak o) (.thread t')
        rw [World.held_weak World.objects_setObject_self, weak, raise_self, Process.destroy,
          reserved_push_self, Nat.add_comm, List.countP_singleton]
        exact Nat.add_le_add (covered t') (by simp [Frame.owes])
      · have same : (s.destroy t o ob').reserved t' handle = s.reserved t' handle := by
          by_cases at_t : t' = t
          · have different : handle ≠ .weak o := fun same => own ⟨at_t, same⟩
            rw [at_t, Process.destroy, reserved_push_self, List.countP_singleton]
            simp only [Frame.owes, Option.some.injEq, different.symm, decide_false, Bool.false_eq_true,
              if_false, Nat.zero_add]
            exact reserved_of_stack rfl handle
          · exact reserved_of_stack (stack_push_of_ne at_t) handle
        rw [same]
        exact covered_setObject accounts books t' handle
    stored := fun v handle => (books.stored v handle).trans (stored_setObject accounts found v handle).symm
    inside := by
      intro v nonempty
      by_cases same : v = o
      · refine .inr ⟨t, .inl ?_⟩
        rw [same, Process.destroy, stack_push_self]
        exact List.mem_cons_self
      · obtain alive | ⟨t', inside⟩ := books.inside v nonempty
        · obtain ⟨ob₀, found₀, undestroyed⟩ := alive
          exact .inl ⟨ob₀, (World.objects_setObject_of_ne same).trans found₀, undestroyed⟩
        · exact .inr ⟨t', inside.imp (stack t' _) (stack t' _)⟩
    buried := by
      intro t' id running
      refine books.buried t' id ?_
      by_cases same : t' = t
      · rw [same, Process.destroy, stack_push_self] at running
        obtain ⟨⟩ | ⟨_, kept⟩ := running
        rw [same]
        exact kept
      · rwa [Process.destroy, stack_push_of_ne same] at running
    orphans := by
      intro id left
      obtain ⟨t', waits⟩ := books.orphans id left
      exact ⟨t', waits.imp (stack t' _) (stack t' _)⟩ }

end Books

end Process

end BiasedRc
