import BiasedRc.Safety

/-! # Moving the value out of a handle

`try_unwrap` wraps its handle in `ManuallyDrop` and, when the handle is unique,
reads the value out through it. Nothing then takes the handle's reference off
the counts or releases the weak reference that the strong references share, so
the value is never destroyed a second time, but its allocation is never freed.
-/

namespace BiasedRc

open Tally Outcome Transition System

namespace Object

variable {pw : PointerWidth} {Tid : Type} [DecidableEq Tid]

/-- `compare_exchange(1, WEAK_LOCKED_COUNT)` on the weak count. -/
def lockWeak (ob : Object pw Tid) : Option (Object pw Tid) :=
  if ob.weakCount = 1 then some { ob with weakCount := weakLockedCount } else none

/-- `weak_count.store(1)`. -/
def unlockWeak (ob : Object pw Tid) : Object pw Tid := { ob with weakCount := 1 }

/-- `Brc::is_unique` with the lock it takes and releases. -/
def checkUnique (ob : Object pw Tid) (thisId : Option ShortThreadId) : Object pw Tid × Bool :=
  if ob.header.biased.isDefinitelyNotUnique thisId then (ob, false)
  else
    match ob.lockWeak with
    | none => (ob, false)
    | some locked =>
        (locked.unlockWeak,
          RawBrcHeader.isUnique thisId locked.header.shared locked.header.biased)

/-- `Brc::try_unwrap`; `true` when the value was read out. The handle is then
    forgotten, else it goes back to the caller. -/
def tryUnwrap (ob : Object pw Tid) (t : Tid) (thisId : Option ShortThreadId) :
    Object pw Tid × Bool :=
  match ob.checkUnique thisId with
  | (ob', true) => ({ ob' with strong := lower ob'.strong t }, true)
  | (ob', false) => (ob', false)

/-- The words show the calling thread one strong reference and no weak one: the object is merged
    with a count of one, or it is the caller's and the two counts add up to one. -/
def SeenAlone (ob : Object pw Tid) (thisId : Option ShortThreadId) : Prop :=
  ob.header.biased.isDefinitelyNotUnique thisId = false ∧ ob.weakCount = 1 ∧
    (ob.header.shared.merged = true ∧ ob.header.shared.sharedCount.value = 1 ∨
      ob.header.shared.merged = false ∧ ob.header.biased.ownerId = thisId ∧
        (ob.header.biased.biasedCount.toNat : Int) + ob.header.shared.sharedCount.value = 1)

instance (ob : Object pw Tid) (thisId : Option ShortThreadId) : Decidable (ob.SeenAlone thisId) :=
  inferInstanceAs (Decidable (_ ∧ _ ∧ _))

omit [DecidableEq Tid] in
theorem checkUnique_eq (ob : Object pw Tid) (thisId : Option ShortThreadId) :
    ob.checkUnique thisId = (ob, ob.isUnique thisId) := by
  unfold checkUnique isUnique lockWeak
  cases ob.header.biased.isDefinitelyNotUnique thisId with
  | true => rfl
  | false =>
      by_cases last : ob.weakCount = 1
      · simp only [last, Bool.false_eq_true, if_false, if_true, unlockWeak, Prod.mk.injEq, and_true]
        rw [← last]
      · simp only [last, Bool.false_eq_true, if_false]

omit [DecidableEq Tid] in
theorem isUnique_eq_true (ob : Object pw Tid) (thisId : Option ShortThreadId) :
    ob.isUnique thisId = true ↔ ob.SeenAlone thisId := by
  unfold isUnique SeenAlone
  cases ob.header.biased.isDefinitelyNotUnique thisId with
  | true => simp
  | false =>
      by_cases last : ob.weakCount = 1
      · simp only [last, Bool.false_eq_true, if_false, if_true, true_and, RawBrcHeader.isUnique_iff]
      · simp only [last, Bool.false_eq_true, if_false, false_and, and_false]

/-- The two outcomes of `try_unwrap`. -/
theorem tryUnwrap_cases (ob : Object pw Tid) (t : Tid) (thisId : Option ShortThreadId) :
    (ob.SeenAlone thisId ∧
      ob.tryUnwrap t thisId = ({ ob with strong := lower ob.strong t }, true)) ∨
    (¬ ob.SeenAlone thisId ∧ ob.tryUnwrap t thisId = (ob, false)) := by
  have checked := checkUnique_eq ob thisId
  cases unique : ob.isUnique thisId with
  | true =>
      rw [unique] at checked
      refine .inl ⟨(isUnique_eq_true ob thisId).mp unique, ?_⟩
      simp only [tryUnwrap, checked]
  | false =>
      rw [unique] at checked
      refine .inr ⟨fun alone => ?_, by simp only [tryUnwrap, checked]⟩
      rw [(isUnique_eq_true ob thisId).mpr alone] at unique
      cases unique

end Object

variable {pw : PointerWidth} {Tid Oid : Type} [DecidableEq Tid] [DecidableEq Oid]

namespace World

/-- `Brc::try_unwrap` on the handle of thread `t`. -/
def tryUnwrap (w : World pw Tid Oid) (t : Tid) (o : Oid) :
    Except Fault (World pw Tid Oid × Bool) := do
  let ob ← w.deref o
  let (ob', taken) := ob.tryUnwrap t (w.shortId t)
  return (w.setObject o ob', taken)

omit [DecidableEq Tid] in
theorem setObject_self {w : World pw Tid Oid} {o : Oid} {ob : Object pw Tid}
    (found : w.objects o = some ob) : w.setObject o ob = w := by
  rw [setObject, ← found, Function.update_eq_self]

/-- The thread sees itself as the only holder of `o`. -/
def SeesAlone (w : World pw Tid Oid) (t : Tid) (o : Oid) : Prop :=
  ∃ ob, w.deref o = .ok ob ∧ ob.SeenAlone (w.shortId t)

instance (w : World pw Tid Oid) (t : Tid) (o : Oid) : Decidable (w.SeesAlone t o) :=
  match h : w.deref o with
  | .error _ => .isFalse fun ⟨_, pointed, _⟩ => by simp [h] at pointed
  | .ok ob => decidable_of_iff (ob.SeenAlone (w.shortId t)) (by simp [SeesAlone, h])

/-- The value is handed out of an object that the thread sees alone, and of no other. -/
theorem tryUnwrap_eq_taken {w w' : World pw Tid Oid} {t : Tid} {o : Oid} :
    w.tryUnwrap t o = .ok (w', true) ↔
      ∃ ob, w.deref o = .ok ob ∧ ob.SeenAlone (w.shortId t) ∧
        w' = w.setObject o { ob with strong := lower ob.strong t } := by
  unfold tryUnwrap
  cases pointed : w.deref o with
  | error fault => simp [bind, Except.bind]
  | ok ob =>
      rcases ob.tryUnwrap_cases t (w.shortId t) with ⟨alone, result⟩ | ⟨shared, result⟩
      · simp [bind, Except.bind, pure, Except.pure, result, alone, eq_comm]
      · simp [bind, Except.bind, pure, Except.pure, result, shared]

/-- A refused call changes nothing, neither a word nor a handle. -/
theorem tryUnwrap_refused {w w' : World pw Tid Oid} {t : Tid} {o : Oid}
    (refused : w.tryUnwrap t o = .ok (w', false)) : w' = w := by
  unfold tryUnwrap at refused
  cases pointed : w.deref o with
  | error fault => simp [pointed, bind, Except.bind] at refused
  | ok ob =>
      rcases ob.tryUnwrap_cases t (w.shortId t) with ⟨alone, result⟩ | ⟨shared, result⟩
      · simp [pointed, bind, Except.bind, pure, Except.pure, result] at refused
      · simp only [pointed, bind, Except.bind, pure, Except.pure, result, Except.ok.injEq,
          Prod.mk.injEq, and_true] at refused
        rw [← refused]
        exact setObject_self (deref_eq_ok.mp pointed).1

variable [Fintype Tid]

/-- `Brc::into_inner`; a handle that comes back from `try_unwrap` is dropped. -/
def intoInner (w : World pw Tid Oid) (t : Tid) (o : Oid) (panicking : Bool) :
    Except Fault (World pw Tid Oid × Bool) := do
  match ← w.tryUnwrap t o with
  | (w', true) => return (w', true)
  | (w', false) => return (← (← w'.collect t panicking).dropNoCollect t o, false)

theorem intoInner_eq_taken {w w' : World pw Tid Oid} {t : Tid} {o : Oid} {panicking : Bool} :
    w.intoInner t o panicking = .ok (w', true) ↔ w.tryUnwrap t o = .ok (w', true) := by
  unfold intoInner
  cases unwrapped : w.tryUnwrap t o with
  | error fault => simp [bind, Except.bind]
  | ok result =>
      obtain ⟨w₁, taken⟩ := result
      cases taken with
      | true => simp [bind, Except.bind, pure, Except.pure]
      | false =>
          simp only [bind, Except.bind, Except.ok.injEq, Prod.mk.injEq, Bool.false_eq_true, and_false,
            iff_false]
          cases w₁.collect t panicking with
          | error fault => simp
          | ok w₂ => cases dropped : w₂.dropNoCollect t o <;> simp [dropped, pure, Except.pure]

end World

/-- All handles are gone, but nothing was destroyed or freed. Where the counts
    are still to be merged their sum is one. -/
structure Object.Leaked (ob : Object pw Tid) : Prop where
  strong : ∀ t, ob.strong t = 0
  weak : ∀ t, ob.weak t = 0
  destroyed : ob.destroyed = 0
  freed : ob.freed = false
  count : ob.header.biased.ownerId ≠ none →
    (ob.header.biased.biasedCount.toNat : Int) + ob.header.shared.sharedCount.value = 1

omit [DecidableEq Tid] in
/-- Merging such an object finds the count of the handle that is gone. -/
theorem Object.Leaked.explicitMerge [Fintype Tid] {ob : Object pw Tid} (leaked : ob.Leaked)
    (id : ShortThreadId) : Yields (fun _ => True) Object.Leaked (ob.explicitMerge id) := by
  unfold Object.explicitMerge
  split
  · trivial
  · rename_i owner
    have owned : ob.header.biased.ownerId = some id := not_not.mp owner
    cases merging : ob.header.shared.mergedWith ob.header.biased.biasedCount with
    | error fault => trivial
    | ok new =>
        obtain ⟨_, value, _, _⟩ := SharedWord.mergedWith_eq_ok merging
        have one : new.sharedCount.value = 1 := by
          have count := leaked.count (by simp [owned])
          omega
        simp only [bind, Except.bind, one]
        exact {
          strong := leaked.strong
          weak := leaked.weak
          destroyed := leaked.destroyed
          freed := leaked.freed
          count := fun unowned => absurd rfl unowned }

namespace World

def Leaks (w : World pw Tid Oid) (o : Oid) : Prop := ∃ ob, w.objects o = some ob ∧ ob.Leaked

namespace Leaks

variable {w w' : World pw Tid Oid} {o o' : Oid} {t : Tid}

omit [DecidableEq Tid] [DecidableEq Oid] in
theorem of_objects (leaks : w.Leaks o) (same : w'.objects = w.objects) : w'.Leaks o := by
  unfold Leaks
  rwa [same]

omit [DecidableEq Tid] in
theorem setObject_other (leaks : w.Leaks o) (other : o ≠ o') (ob : Object pw Tid) :
    (w.setObject o' ob).Leaks o := by
  unfold Leaks
  rwa [objects_setObject_of_ne other]

section

omit [DecidableEq Tid] [DecidableEq Oid]

/-- No call can be made through a handle of the object. -/
theorem ne_of_holdsStrong (leaks : w.Leaks o) (holds : w.holdsStrong t o') : o ≠ o' := by
  rintro rfl
  obtain ⟨ob, found, leaked⟩ := leaks
  obtain ⟨ob', found', held⟩ := holds
  obtain rfl := Option.some.inj (found.symm.trans found')
  have := leaked.strong t
  omega

theorem ne_of_holdsWeak (leaks : w.Leaks o) (holds : w.holdsWeak t o') : o ≠ o' := by
  rintro rfl
  obtain ⟨ob, found, leaked⟩ := leaks
  obtain ⟨ob', found', held⟩ := holds
  obtain rfl := Option.some.inj (found.symm.trans found')
  have := leaked.weak t
  omega

theorem ne_of_free (leaks : w.Leaks o) (free : w.objects o' = none) : o ≠ o' := by
  rintro rfl
  obtain ⟨ob, found, _⟩ := leaks
  cases found.symm.trans free

end

omit [DecidableEq Tid] in
theorem onObject_other (leaks : w.Leaks o) (other : o ≠ o')
    (op : Object pw Tid → Except Fault (Object pw Tid)) :
    Yields (fun _ => True) (·.Leaks o) (w.onObject o' op) := by
  unfold onObject
  cases w.deref o' with
  | error fault => trivial
  | ok ob =>
      simp only [bind, Except.bind]
      cases op ob with
      | error fault => trivial
      | ok ob' => exact leaks.setObject_other other ob'

theorem allocate (leaks : w.Leaks o) (other : o ≠ o') : (w.allocate t o').Leaks o :=
  (leaks.of_objects (objects_withCurrent w t)).setObject_other other _

variable [Fintype Tid] {id : ShortThreadId} {panicking : Bool}

omit [DecidableEq Tid] in
theorem explicitMerge (leaks : w.Leaks o) (o' : Oid) :
    Yields (fun _ => True) (·.Leaks o) (w.explicitMerge id o') := by
  by_cases other : o = o'
  · subst other
    obtain ⟨ob, found, leaked⟩ := leaks
    refine (onObject_yields found leaked.freed (leaked.explicitMerge id)).mono ?_
    rintro _ ⟨ob', leaked', rfl⟩
    exact ⟨ob', objects_setObject_self, leaked'⟩
  · exact leaks.onObject_other other _

omit [DecidableEq Tid] in
theorem doProcess (leaks : w.Leaks o) (queue : List Oid) :
    Yields (fun _ => True) (·.Leaks o) (World.doProcess id queue w) := by
  induction queue generalizing w with
  | nil => exact leaks
  | cons o' rest ih => exact (leaks.explicitMerge o').bind fun w' leaks' => ih leaks'

omit [DecidableEq Tid] in
theorem collectForceOf (leaks : w.Leaks o) :
    Yields (fun _ => True) (·.Leaks o) (w.collectForceOf id) := by
  unfold World.collectForceOf
  split
  · exact leaks
  · split
    · split
      · exact leaks
      · exact (leaks.doProcess _).bind fun w' leaks' => leaks'.of_objects objects_setInfo
    · exact leaks

theorem collectForce (leaks : w.Leaks o) :
    Yields (fun _ => True) (·.Leaks o) (w.collectForce t) := by
  have ready := leaks.of_objects (objects_withCurrent w t)
  unfold World.collectForce
  split
  · exact ready
  · exact ready.collectForceOf

theorem collect (leaks : w.Leaks o) :
    Yields (fun _ => True) (·.Leaks o) (w.collect t panicking) := by
  have ready := leaks.of_objects (objects_withCurrent w t)
  unfold World.collect World.collectSlow
  split
  · split
    · exact ready
    · split
      · exact ready
      · split
        · exact ready.collectForceOf
        · exact ready
  · exact leaks

omit [DecidableEq Tid] in
/-- Another object's entry in a queue, or its merge in place of one. -/
theorem decrementSharedDoQueue (leaks : w.Leaks o) (other : o ≠ o') (ob : Object pw Tid) :
    Yields (fun _ => True) (·.Leaks o) (w.decrementSharedDoQueue o' ob) := by
  unfold World.decrementSharedDoQueue
  split
  · trivial
  · split
    · trivial
    · unfold World.queueObject
      split
      · exact (leaks.setObject_other other _).of_objects objects_setInfo
      · split
        · trivial
        · exact (leaks.setObject_other other _).explicitMerge o'

theorem dropNoCollect (leaks : w.Leaks o) (other : o ≠ o') :
    Yields (fun _ => True) (·.Leaks o) (w.dropNoCollect t o') := by
  unfold World.dropNoCollect
  cases w.deref o' with
  | error fault => trivial
  | ok ob =>
      simp only [bind, Except.bind]
      cases ob.decrementStrong t (w.shortId t) with
      | error fault => trivial
      | ok dropped =>
          obtain ⟨ob', won⟩ := dropped
          cases won with
          | true => exact leaks.decrementSharedDoQueue other ob'
          | false => exact leaks.setObject_other other ob'

theorem threadDeath (leaks : w.Leaks o) :
    Yields (fun _ => True) (·.Leaks o) (w.threadDeath t) := by
  unfold World.threadDeath
  split
  · exact leaks
  · rename_i id' _
    split
    · exact leaks.of_objects objects_setFast
    · rename_i info _
      have dying : ((w.setFast t ⟨.deadOrDying, none⟩).setInfo id' ⟨.dying, none⟩).Leaks o :=
        leaks.of_objects rfl
      exact (dying.doProcess (info.queuedObjects.getD [])).bind fun w' leaks' =>
        leaks'.of_objects objects_setInfo

/-- Every call of any thread. -/
theorem call (leaks : w.Leaks o) {c : Call Tid Oid} (enabled : w.enabled c) :
    Yields (fun _ => True) (·.Leaks o) (w.call c) := by
  cases c with
  | new t o' panicking =>
      have other := leaks.ne_of_free enabled
      exact leaks.collect.bind fun w' leaks' => leaks'.allocate other
  | clone t o' panicking =>
      have other := leaks.ne_of_holdsStrong enabled
      exact leaks.collect.bind fun w' leaks' => leaks'.onObject_other other _
  | drop t o' panicking =>
      have other := leaks.ne_of_holdsStrong enabled
      exact leaks.collect.bind fun w' leaks' => leaks'.dropNoCollect other
  | dropNoCollect t o' => exact leaks.dropNoCollect (leaks.ne_of_holdsStrong enabled)
  | cloneNoCollect t o' | cloneShared t o' | downgrade t o' | send t t' o' =>
      exact leaks.onObject_other (leaks.ne_of_holdsStrong enabled) _
  | upgrade t o' | cloneWeak t o' | dropWeak t o' | sendWeak t t' o' =>
      exact leaks.onObject_other (leaks.ne_of_holdsWeak enabled) _
  | collect t panicking => exact leaks.collect
  | collectForce t => exact leaks.collectForce
  | threadDeath t => exact leaks.threadDeath

theorem run (leaks : w.Leaks o) {labels} (later : Run (calls pw Tid Oid) w labels w') :
    w'.Leaks o := by
  refine later.invariant (P := fun w => w.Leaks o) leaks ?_
  intro w c w' leaks taken
  obtain ⟨enabled, returned⟩ := calls_step.mp taken
  exact (leaks.call enabled).of_ok returned

end Leaks

end World

variable [Fintype Tid]

namespace World

/-- The value of `o` has left the object: its allocation is freed with the
    handle, and no later call destroys the value. -/
structure Relinquishes (w w' : World pw Tid Oid) (o : Oid) : Prop where
  freed : ∀ ob ob', w.objects o = some ob → w'.objects o = some ob' →
    ob.freed = false ∧ ob'.freed = true
  kept : ∀ labels w'' ob ob'', Run (calls pw Tid Oid) w' labels w'' →
    w.objects o = some ob → w''.objects o = some ob'' → ob''.destroyed = ob.destroyed

/-- Both ways to take the value out account for it, and a refusal changes nothing. -/
structure UnwrapAccounted (w : World pw Tid Oid) (t : Tid) (o : Oid) : Prop where
  unwrapped : ∀ w', w.tryUnwrap t o = .ok (w', true) → w.Relinquishes w' o
  taken : ∀ w' panicking, w.intoInner t o panicking = .ok (w', true) → w.Relinquishes w' o
  refused : ∀ w', w.tryUnwrap t o = .ok (w', false) → w' = w

/-- The object handed out differs from the one before in nothing but its handles. -/
theorem SeesAlone.not_accounted {w : World pw Tid Oid} {t : Tid} {o : Oid} (alone : w.SeesAlone t o) :
    ¬ w.UnwrapAccounted t o := by
  intro accounted
  obtain ⟨ob, pointed, alone⟩ := alone
  obtain ⟨found, allocated⟩ := deref_eq_ok.mp pointed
  have handed := tryUnwrap_eq_taken.mpr ⟨ob, pointed, alone, rfl⟩
  have freed := ((accounted.unwrapped _ handed).freed _ _ found objects_setObject_self).2
  cases allocated.symm.trans freed

/-- `try_unwrap` accounts for the value exactly where it does not hand it out. -/
theorem unwrapAccounted_iff (w : World pw Tid Oid) (t : Tid) (o : Oid) :
    w.UnwrapAccounted t o ↔ ¬ w.SeesAlone t o := by
  refine ⟨fun accounted alone => alone.not_accounted accounted, ?_⟩
  intro shared
  have refuses : ∀ {w'}, w.tryUnwrap t o ≠ .ok (w', true) := by
    intro w' handed
    obtain ⟨ob, pointed, alone, _⟩ := tryUnwrap_eq_taken.mp handed
    exact shared ⟨ob, pointed, alone⟩
  exact {
    unwrapped := fun w' handed => absurd handed refuses
    taken := fun w' panicking handed => absurd (intoInner_eq_taken.mp handed) refuses
    refused := fun w' => tryUnwrap_refused }

/-- The sole owner of a fresh object moves its value out. -/
theorem tryUnwrap_unaccounted :
    ¬ ∀ w : World .w64 (Fin 1) (Fin 1), (calls .w64 (Fin 1) (Fin 1)).Reachable w →
      ∀ t o, w.holdsStrong t o → w.UnwrapAccounted t o := by
  intro accounted
  have start : ((calls .w64 (Fin 1) (Fin 1)).restrict fun _ _ => True).Reachable
      World.initial := .start rfl
  obtain ⟨w, reached, holds, alone⟩ := start.of_replay [.new 0 0 false]
    (fun w => w.holdsStrong 0 0 ∧ w.SeesAlone 0 0) (by decide +kernel)
  exact alone.not_accounted (accounted w reached.of_restrict 0 0 holds)

end World

omit [DecidableEq Tid] in
/-- A handle that passes the test is the last of either kind. -/
theorem ObjectInv.last_of_alone {ob : Object pw Tid} (inv : ObjectInv ob) {t : Tid}
    {thisId : Option ShortThreadId} (holds : 1 ≤ ob.strong t) (alone : ob.SeenAlone thisId) :
    total ob.strong = 1 ∧ total ob.weak = 0 := by
  obtain ⟨_, weakCount, known⟩ := alone
  have undestroyed := inv.held_undestroyed (holds.trans (le_total ob.strong t))
  have weak := inv.weakCount
  rw [weakCount, undestroyed] at weak
  have one := RawBrcHeader.isUnique_eq_true.mp (RawBrcHeader.isUnique_iff.mpr known)
  exact ⟨(inv.counts.strongCount_iff.mp one).1.symm, by simpa using weak.symm⟩

theorem ObjectInv.leaked {ob : Object pw Tid} (inv : ObjectInv ob) {t : Tid}
    {thisId : Option ShortThreadId} (holds : 1 ≤ ob.strong t) (alone : ob.SeenAlone thisId) :
    ({ ob with strong := lower ob.strong t } : Object pw Tid).Leaked := by
  obtain ⟨strong, weak⟩ := inv.last_of_alone holds alone
  have dropped := total_lower holds
  exact {
    strong := (total_eq_zero_iff _).mp (by simp only; omega)
    weak := (total_eq_zero_iff _).mp weak
    destroyed := inv.held_undestroyed (by omega)
    freed := inv.not_freed_of_strong holds
    count := by
      intro owned
      have unmerged := inv.unmerged_of_owner (Option.isSome_iff_ne_none.mpr owned)
      obtain ⟨id, _, _, count⟩ := inv.owned unmerged
      simp only
      omega }

/-- In safe runs the value moved out is never destroyed, and the allocation is
    never freed, not even when the object still waits in a queue. -/
theorem unwrapped_object_leaks {w w' w'' : World pw Tid Oid} {t : Tid} {o : Oid} {labels}
    (reached : ((calls pw Tid Oid).restrict World.CallSafe).Reachable w)
    (holds : w.holdsStrong t o) (handed : w.tryUnwrap t o = .ok (w', true))
    (later : Run (calls pw Tid Oid) w' labels w'') :
    ∃ ob, w''.objects o = some ob ∧ ob.destroyed = 0 ∧ ob.freed = false := by
  obtain ⟨ob, pointed, alone, rfl⟩ := World.tryUnwrap_eq_taken.mp handed
  obtain ⟨ob', found', held⟩ := holds
  have found := (World.deref_eq_ok.mp pointed).1
  obtain rfl := Option.some.inj (found.symm.trans found')
  have leaked := ((WorldInv.of_safe_run reached).object found).leaked held alone
  have leaks : (w.setObject o { ob with strong := lower ob.strong t }).Leaks o :=
    ⟨_, World.objects_setObject_self, leaked⟩
  obtain ⟨ob'', found'', leaked''⟩ := leaks.run later
  exact ⟨ob'', found'', leaked''.destroyed, leaked''.freed⟩

end BiasedRc
