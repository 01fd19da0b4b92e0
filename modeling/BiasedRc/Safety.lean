import BiasedRc.Calls

/-! # Destruction and queue entries over whole runs

Runs are sequences of whole calls by any number of threads. A clone that adds to
a shared count of -1 carries into the merged flag, and an owner that drops its
last biased reference while the object waits in its queue merges an object that
is about to be merged again. Without these two steps every value is destroyed
once and unreferenced, and every queue entry is one that `explicit_merge` accepts.
-/

namespace BiasedRc


open Tally Outcome Transition System

variable {pw : PointerWidth} {Tid Oid : Type} [DecidableEq Tid] [DecidableEq Oid] [Fintype Tid]

/-- Calls that do not involve weak handles. -/
def Call.isStrong : Call Tid Oid → Bool
  | .upgrade _ _ | .downgrade _ _ | .cloneWeak _ _ | .dropWeak _ _ | .sendWeak _ _ _ => false
  | _ => true

/-- The value was destroyed at most once, and never while a strong handle was live. -/
def Object.DestroyedSafely (ob : Object pw Tid) : Prop :=
  ob.destroyed ≤ 1 ∧ ob.premature = false ∧ (ob.destroyed = 1 → ∀ t, ob.strong t = 0)

instance (ob : Object pw Tid) : Decidable ob.DestroyedSafely :=
  inferInstanceAs (Decidable (_ ∧ _ ∧ _))

omit [DecidableEq Tid] in
theorem ObjectInv.destroyedSafely {ob : Object pw Tid} (inv : ObjectInv ob) :
    ob.DestroyedSafely := by
  refine ⟨inv.destroyed_le_one, inv.premature, ?_⟩
  intro once
  rw [inv.destroyed] at once
  split at once
  · rename_i dropped
    exact (total_eq_zero_iff ob.strong).mp dropped.2
  · cases once

/-- Runs of strong calls none of which carries out of the shared count. -/
theorem destroyed_once_and_unreferenced {w : World pw Tid Oid}
    (reached : ((calls pw Tid Oid).restrict fun w c => c.isStrong = true ∧ w.NoCarry c).Reachable w)
    {o ob} (found : w.objects o = some ob) : ob.DestroyedSafely := by
  have sound : WorldInv w ∧ w.Sunk := by
    refine reached.invariant (P := fun w => WorldInv w ∧ w.Sunk) ?_ ?_
    · rintro _ rfl
      exact ⟨.vacant 0 false, nofun⟩
    · rintro w c w' ⟨inv, sunk⟩ ⟨⟨isStrong, noCarry⟩, taken⟩
      have noUpgrade : c.isUpgrade = false := by cases c <;> first | rfl | cases isStrong
      obtain ⟨enabled, returned⟩ := calls_step.mp taken
      have kept := (inv.call enabled noCarry (inv.noEarlyMerge sunk enabled)).of_ok returned
      exact ⟨kept.1, kept.2 noUpgrade sunk⟩
  exact (sound.1.object found).destroyedSafely

/-- Thread 1 drops its handle to an object of thread 0, then clones at a shared count of -1.
    The carry sets the merged flag, and the next drop to zero destroys a value that is still held. -/
theorem carry_destroys_held_value :
    ¬ ∀ w : World .w64 (Fin 2) (Fin 1),
      ((calls .w64 (Fin 2) (Fin 1)).restrict fun _ c => c.isStrong = true).Reachable w →
        ∀ o ob, w.objects o = some ob → ob.DestroyedSafely := by
  intro safe
  have start : ((calls .w64 (Fin 2) (Fin 1)).restrict fun _ c => c.isStrong = true).Reachable
      World.initial := .start rfl
  obtain ⟨w, reached, ob, found, held⟩ := start.of_replay
    [.new 0 0 false, .cloneNoCollect 0 0, .send 0 1 0, .send 0 1 0, .dropNoCollect 1 0,
      .cloneNoCollect 1 0, .cloneNoCollect 1 0, .dropNoCollect 1 0]
    (fun w => ∃ ob ∈ w.objects 0, ¬ ob.DestroyedSafely) (by decide +kernel)
  exact held (safe w reached 0 ob found)

/-- The last handle is dropped by another thread, and the owner's collection destroys the value. -/
theorem handed_over_value_destroyed :
    ∃ (w : World .w64 (Fin 2) (Fin 1)) (ob : Object .w64 (Fin 2)),
      w.objects 0 = some ob ∧ ob.destroyed = 1 ∧ ob.DestroyedSafely := by
  have start : ((calls .w64 (Fin 2) (Fin 1)).restrict fun w c =>
      c.isStrong = true ∧ w.NoCarry c).Reachable World.initial := .start rfl
  obtain ⟨w, reached, ob, found, once⟩ := start.of_replay
    [.new 0 0 false, .clone 0 0 false, .send 0 1 0, .drop 0 0 false, .drop 1 0 false, .collectForce 0]
    (fun w => ∃ ob ∈ w.objects 0, ob.destroyed = 1) (by decide +kernel)
  exact ⟨w, ob, found, once, destroyed_once_and_unreferenced reached found⟩

/-- Queue entries are allocated, unmerged and owned by the queue's thread, and no object was
    pushed twice. -/
def World.QueueValid (w : World pw Tid Oid) : Prop :=
  (∀ id, ∀ o ∈ w.queueOf id, ∃ ob, w.objects o = some ob ∧ ob.freed = false ∧
    ob.header.shared.merged = false ∧ ob.header.biased.ownerId = some id) ∧
  ∀ o ob, w.objects o = some ob → ob.pushed ≤ 1

omit [DecidableEq Tid] [DecidableEq Oid] in
theorem WorldInv.queueValid {w : World pw Tid Oid} (inv : WorldInv w) : w.QueueValid := by
  constructor
  · intro id o listed
    obtain ⟨ob, found, unmerged, queued, owner⟩ := (inv.queue id o).mp listed
    exact ⟨ob, found, (inv.object found).not_freed_of_unmerged unmerged, unmerged, owner⟩
  · intro o ob found
    exact (inv.object found).pushed.trans (Bool.toNat_le _)

/-- Neither condition is violated by the call. -/
def World.CallSafe (w : World pw Tid Oid) (c : Call Tid Oid) : Prop :=
  w.NoCarry c ∧ w.NoEarlyMerge c

instance (w : World pw Tid Oid) (c : Call Tid Oid) : Decidable (w.CallSafe c) :=
  inferInstanceAs (Decidable (_ ∧ _))

theorem WorldInv.of_safe_run {w : World pw Tid Oid}
    (reached : ((calls pw Tid Oid).restrict World.CallSafe).Reachable w) : WorldInv w := by
  refine reached.invariant (P := WorldInv) ?_ ?_
  · rintro _ rfl
    exact .vacant 0 false
  · rintro w c w' inv ⟨⟨noCarry, noEarlyMerge⟩, taken⟩
    obtain ⟨enabled, returned⟩ := calls_step.mp taken
    exact ((inv.call enabled noCarry noEarlyMerge).of_ok returned).1

/-- In safe runs queue entries stay valid, and the next safe call fails no check of
    `explicit_merge`. -/
theorem queue_entries_valid {w : World pw Tid Oid}
    (reached : ((calls pw Tid Oid).restrict World.CallSafe).Reachable w) :
    w.QueueValid ∧ ∀ c, w.enabled c → w.CallSafe c →
      w.call c ≠ .error .explicitMergeBadId ∧ w.call c ≠ .error .alreadyMerged := by
  have inv := WorldInv.of_safe_run reached
  refine ⟨inv.queueValid, ?_⟩
  intro c enabled safe
  have outcome := inv.call enabled safe.1 safe.2
  constructor <;> intro failed <;> exact outcome.of_error failed

/-- An object in its owner's queue is merged by the owner's last drop and then deallocated. -/
theorem freed_object_stays_queued :
    ¬ ∀ w : World .w64 (Fin 2) (Fin 1), (calls .w64 (Fin 2) (Fin 1)).Reachable w →
      w.QueueValid := by
  intro valid
  have start : ((calls .w64 (Fin 2) (Fin 1)).restrict fun _ _ => True).Reachable
      World.initial := .start rfl
  obtain ⟨w, reached, listed, ob, found, freed⟩ := start.of_replay
    [.new 0 0 false, .clone 0 0 false, .send 0 1 0, .send 0 1 0, .downgrade 1 0, .dropNoCollect 1 0,
      .upgrade 1 0, .send 1 0 0, .send 1 0 0, .dropNoCollect 0 0, .dropNoCollect 0 0, .dropWeak 1 0]
    (fun w => 0 ∈ w.queueOf ⟨1, by decide⟩ ∧ ∃ ob ∈ w.objects 0, ob.freed = true)
    (by decide +kernel)
  obtain ⟨ob', found', allocated, _⟩ := (valid w reached.of_restrict).1 _ 0 listed
  have same : ob = ob' := Option.some.inj (found.symm.trans found')
  rw [← same, freed] at allocated
  cases allocated

/-- A queued object survives an upgrade and is merged by the owner's collection. -/
theorem upgraded_object_merged_from_queue :
    ∃ w : World .w64 (Fin 2) (Fin 1), 0 ∈ w.queueOf ⟨1, by decide⟩ ∧ w.QueueValid ∧
      w.call (.collectForce 0) ≠ .error .explicitMergeBadId ∧
      w.call (.collectForce 0) ≠ .error .alreadyMerged := by
  have start : ((calls .w64 (Fin 2) (Fin 1)).restrict World.CallSafe).Reachable
      World.initial := .start rfl
  obtain ⟨w, reached, listed⟩ := start.of_replay
    [.new 0 0 false, .clone 0 0 false, .send 0 1 0, .downgrade 1 0, .dropNoCollect 0 0,
      .dropNoCollect 1 0, .upgrade 1 0]
    (fun w => 0 ∈ w.queueOf ⟨1, by decide⟩) (by decide +kernel)
  obtain ⟨valid, checks⟩ := queue_entries_valid reached
  exact ⟨w, listed, valid, checks (.collectForce 0) trivial ⟨trivial, trivial⟩⟩

end BiasedRc
