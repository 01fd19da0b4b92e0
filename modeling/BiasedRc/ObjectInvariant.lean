import BiasedRc.Counts
import BiasedRc.Lib.Outcome
import BiasedRc.World

/-! # What one header says about its handles

The number of live strong handles is split over the biased and the shared count
until the two are merged. `ObjectInv` is that split, with the flags that decide
where an object waits for its owner, and with the accounting of destruction.
Each operation of a header keeps it, and can only fail by an overflow, unless a
clone carries out of the count field or the owner gives up its last biased
reference while the object is queued.
-/

namespace BiasedRc

open Tally Outcome

namespace Object

variable {pw : PointerWidth} {Tid : Type}

/-- The object belongs in the queue of the thread with this id. -/
def awaits (ob : Object pw Tid) (id : ShortThreadId) : Prop :=
  ob.header.shared.merged = false ∧ ob.header.shared.queued = true ∧ ob.header.biased.ownerId = some id

theorem not_awaits_of_merged {ob : Object pw Tid} (merged : ob.header.shared.merged = true) (id) :
    ¬ ob.awaits id := fun ⟨unmerged, _, _⟩ => by simp [merged] at unmerged

theorem not_awaits_of_unqueued {ob : Object pw Tid} (unqueued : ob.header.shared.queued = false) (id) :
    ¬ ob.awaits id := fun ⟨_, queued, _⟩ => by simp [unqueued] at queued

/-- While it waits the shared count is negative. Only an upgrade can lift it. -/
def Sunk (ob : Object pw Tid) : Prop :=
  ob.header.shared.queued = true → ob.header.shared.merged = false →
    ob.header.shared.sharedCount.value < 0

theorem sunk_of_merged {ob : Object pw Tid} (merged : ob.header.shared.merged = true) : ob.Sunk :=
  fun _ unmerged => by simp [merged] at unmerged

theorem sunk_of_unqueued {ob : Object pw Tid} (unqueued : ob.header.shared.queued = false) :
    ob.Sunk := fun queued => by simp [unqueued] at queued

/-- A change that no queue and no registry has to follow. -/
structure SameEntry (ob ob' : Object pw Tid) : Prop where
  awaits : ∀ id, ob'.awaits id ↔ ob.awaits id
  owner : ∀ id, ob'.header.biased.ownerId = some id → ob.header.biased.ownerId = some id

theorem SameEntry.of_fields {ob ob' : Object pw Tid}
    (merged : ob'.header.shared.merged = ob.header.shared.merged)
    (queued : ob'.header.shared.queued = ob.header.shared.queued)
    (owner : ob'.header.biased.ownerId = ob.header.biased.ownerId) : ob.SameEntry ob' where
  awaits _ := by simp only [Object.awaits, merged, queued, owner]
  owner _ owned := owner ▸ owned

variable [Fintype Tid]

/-- Everything but the accounting of destruction. -/
structure Counted (ob : Object pw Tid) : Prop where
  owned : ob.header.shared.merged = false → ∃ id, ob.header.biased.ownerId = some id ∧
    1 ≤ ob.header.biased.biasedCount.toNat ∧
    (ob.header.biased.biasedCount.toNat : Int) + ob.header.shared.sharedCount.value = total ob.strong
  released : ob.header.shared.merged = true →
    ob.header.biased.ownerId = none ∧ ob.header.shared.sharedCount.value = total ob.strong
  unqueued : ob.header.shared.merged = false → ob.header.shared.queued = false →
    0 ≤ ob.header.shared.sharedCount.value
  pushed : ob.pushed ≤ ob.header.shared.queued.toNat
  premature : ob.premature = false
  weakCount : ob.weakCount.toNat + ob.destroyed = total ob.weak + 1
  freed : ob.freed = true ↔ ob.weakCount.toNat = 0

end Object

/-- The invariant of one header between two calls. -/
structure ObjectInv {pw : PointerWidth} {Tid : Type} [Fintype Tid] (ob : Object pw Tid) : Prop
    extends ob.Counted where
  destroyed : ob.destroyed = if ob.header.shared.merged = true ∧ total ob.strong = 0 then 1 else 0

/-- What an operation leaves: a sound header with these handles and the same entry. -/
structure Object.Adjusts {pw : PointerWidth} {Tid : Type} [Fintype Tid] (ob : Object pw Tid)
    (strong weak : Tid → Nat) (ob' : Object pw Tid) : Prop where
  inv : ObjectInv ob'
  entry : ob.SameEntry ob'
  strong : ob'.strong = strong
  weak : ob'.weak = weak

/-- The same for every operation but an upgrade. -/
structure Object.Becomes {pw : PointerWidth} {Tid : Type} [Fintype Tid] (ob : Object pw Tid)
    (strong weak : Tid → Nat) (ob' : Object pw Tid) : Prop extends ob.Adjusts strong weak ob' where
  sunk : ob.Sunk → ob'.Sunk

/-- What a drop leaves that has won the right to queue the object. -/
structure Object.Won {pw : PointerWidth} {Tid : Type} [Fintype Tid] (ob : Object pw Tid)
    (strong : Tid → Nat) (ob' : Object pw Tid) : Prop where
  inv : ObjectInv ob'
  unqueued : ob.header.shared.queued = false
  unmerged : ob'.header.shared.merged = false
  queued : ob'.header.shared.queued = true
  negative : ob'.header.shared.sharedCount.value < 0
  biased : ob'.header.biased = ob.header.biased
  unpushed : ob'.pushed = 0
  strong : ob'.strong = strong
  weak : ob'.weak = ob.weak

/-- What merging the counts leaves. -/
structure Object.Merges {pw : PointerWidth} {Tid : Type} [Fintype Tid] (ob ob' : Object pw Tid) :
    Prop where
  inv : ObjectInv ob'
  merged : ob'.header.shared.merged = true
  strong : ob'.strong = ob.strong
  weak : ob'.weak = ob.weak

section

variable {pw : PointerWidth} {Tid : Type} [Fintype Tid] {ob : Object pw Tid}

theorem Object.Counted.undestroyed (counted : ob.Counted) (zero : ob.destroyed = 0)
    (remains : ob.header.shared.merged = true → total ob.strong ≠ 0) : ObjectInv ob where
  toCounted := counted
  destroyed := by rw [zero, if_neg fun ⟨merged, dropped⟩ => remains merged dropped]

namespace ObjectInv

theorem destroyed_le_one (inv : ObjectInv ob) : ob.destroyed ≤ 1 := by
  rw [inv.destroyed]
  split <;> omega

theorem destroyed_eq_zero (inv : ObjectInv ob)
    (remains : ob.header.shared.merged = true → total ob.strong ≠ 0) : ob.destroyed = 0 := by
  rw [inv.destroyed, if_neg fun ⟨merged, dropped⟩ => remains merged dropped]

theorem unmerged_undestroyed (inv : ObjectInv ob) (unmerged : ob.header.shared.merged = false) :
    ob.destroyed = 0 :=
  inv.destroyed_eq_zero fun merged => by simp [unmerged] at merged

theorem held_undestroyed (inv : ObjectInv ob) (held : 1 ≤ total ob.strong) : ob.destroyed = 0 :=
  inv.destroyed_eq_zero fun _ => (Nat.lt_of_lt_of_le Nat.one_pos held).ne'

theorem not_freed (inv : ObjectInv ob) (needed : ob.destroyed = 0 ∨ 1 ≤ total ob.weak) :
    ob.freed = false := by
  have count := inv.weakCount
  have once := inv.destroyed_le_one
  rw [Bool.eq_false_iff, ne_eq, inv.freed]
  omega

theorem not_freed_of_unmerged (inv : ObjectInv ob) (unmerged : ob.header.shared.merged = false) :
    ob.freed = false := inv.not_freed (.inl (inv.unmerged_undestroyed unmerged))

theorem not_freed_of_strong (inv : ObjectInv ob) {t : Tid} (holds : 1 ≤ ob.strong t) :
    ob.freed = false :=
  inv.not_freed (.inl (inv.held_undestroyed (holds.trans (le_total ob.strong t))))

theorem not_freed_of_weak (inv : ObjectInv ob) {t : Tid} (holds : 1 ≤ ob.weak t) :
    ob.freed = false :=
  inv.not_freed (.inr (holds.trans (le_total ob.weak t)))

end ObjectInv

omit [Fintype Tid] in
/-- `dropWeak` on a count that covers the reference given up. -/
theorem Object.dropWeak_weakCount (covered : 1 ≤ ob.weakCount.toNat) :
    ob.dropWeak.weakCount.toNat + 1 = ob.weakCount.toNat := by
  have bound := ob.weakCount.isLt
  simp only [Object.dropWeak, BitVec.toNat_sub, BitVec.ofNat_eq_ofNat, BitVec.toNat_ofNat]
  omega

omit [Fintype Tid] in
theorem Object.dropWeak_freed (covered : 1 ≤ ob.weakCount.toNat)
    (freed : ob.freed = true ↔ ob.weakCount.toNat = 0) :
    ob.dropWeak.freed = true ↔ ob.dropWeak.weakCount.toNat = 0 := by
  have count := dropWeak_weakCount covered
  have last : ob.weakCount = 1 ↔ ob.weakCount.toNat = 1 := by
    rw [← BitVec.toNat_inj]
    rfl
  simp only [Object.dropWeak, Bool.or_eq_true, freed, beq_iff_eq, last] at count ⊢
  omega

/-- The last reference is gone and the counts are merged: `dealloc` settles the object. -/
theorem Object.Counted.dealloc (counted : ob.Counted) (undestroyed : ob.destroyed = 0)
    (merged : ob.header.shared.merged = true) (dropped : total ob.strong = 0) :
    ObjectInv ob.dealloc where
  owned := counted.owned
  released := counted.released
  unqueued := counted.unqueued
  pushed := counted.pushed
  premature := by
    have noHolder : ¬ ∃ t, 0 < ob.strong t := fun ⟨t, holds⟩ =>
      absurd ((total_eq_zero_iff ob.strong).mp dropped t) holds.ne'
    simp only [Object.dealloc, Object.dropWeak, counted.premature, noHolder, decide_false,
      Bool.or_false]
  weakCount := by
    have count := counted.weakCount
    have covered : 1 ≤ ob.weakCount.toNat := by omega
    have fewer := dropWeak_weakCount covered
    simp only [Object.dealloc, Object.dropWeak] at fewer count ⊢
    omega
  freed := by
    have count := counted.weakCount
    have covered : 1 ≤ ob.weakCount.toNat := by omega
    exact dropWeak_freed covered counted.freed
  destroyed := by
    have settled : ob.dealloc.header.shared.merged = true ∧ total ob.dealloc.strong = 0 :=
      ⟨merged, dropped⟩
    rw [if_pos settled]
    simp only [Object.dealloc, Object.dropWeak, undestroyed]

theorem Object.Counted.counts (counted : ob.Counted) : ob.header.Counts (total ob.strong) where
  owned := counted.owned
  merged merged := (counted.released merged).2

/-- New counts for the strong handles leave the weak side as it is. -/
theorem Object.Counted.recount (counted : ob.Counted) {header : RawBrcHeader pw}
    {strong : Tid → Nat} (counts : header.Counts (total strong))
    (unowned : header.shared.merged = true → header.biased.ownerId = none)
    (unqueued : header.shared.merged = false → header.shared.queued = false →
      0 ≤ header.shared.sharedCount.value)
    (pushed : ob.pushed ≤ header.shared.queued.toNat) :
    Object.Counted { ob with header := header, strong := strong } where
  owned := counts.owned
  released merged := ⟨unowned merged, counts.merged merged⟩
  unqueued := unqueued
  pushed := pushed
  premature := counted.premature
  weakCount := counted.weakCount
  freed := counted.freed

end

section

variable {pw : PointerWidth} {Tid : Type} [DecidableEq Tid] [Fintype Tid] {ob : Object pw Tid}
  {t : Tid} {thisId : Option ShortThreadId}

namespace ObjectInv

theorem new (t : Tid) (thisId) : ObjectInv (Object.new t thisId : Object pw Tid) := by
  have one := total_raise_zero t
  have none : total (fun _ : Tid => 0) = 0 := total_zero
  refine Object.Counted.undestroyed ?_ rfl fun _ => by simp only [Object.new, one]; omega
  cases thisId with
  | none => constructor <;> simp [Object.new, one, none, BiasedWord.unowned]
  | some id => constructor <;> simp [Object.new, one, none]

omit [DecidableEq Tid] in
theorem unmerged_of_owner (inv : ObjectInv ob) (owned : ob.header.biased.ownerId.isSome = true) :
    ob.header.shared.merged = false := by
  rw [Bool.eq_false_iff]
  intro merged
  rw [(inv.released merged).1] at owned
  cases owned

omit [DecidableEq Tid] in
theorem unmerged_of_decrement (inv : ObjectInv ob)
    (owner : ob.header.biased.decrementBiased thisId ≠ .notOwner) :
    ob.header.shared.merged = false :=
  inv.unmerged_of_owner (BiasedWord.owner_of_decrementBiased owner).2

theorem incrementBiased (inv : ObjectInv ob) {new : BiasedWord}
    (taken : ob.header.biased.attemptIncrement thisId = some new) :
    ObjectInv { ob with header := ob.header.storeBiased new, strong := raise ob.strong t } := by
  have unmerged := inv.unmerged_of_owner (BiasedWord.attemptIncrement_eq_some taken).2.1
  refine Object.Counted.undestroyed (inv.recount ?_ ?_ ?_ ?_) (inv.unmerged_undestroyed unmerged) ?_
  · rw [total_raise]
    exact inv.counts.incrementBiased unmerged taken
  · intro merged
    simp [unmerged] at merged
  · exact inv.unqueued
  · exact inv.pushed
  · intro merged
    simp [unmerged] at merged

/-- One more reference through the shared word, unless the value is gone. -/
theorem incrementShared (inv : ObjectInv ob) {header : RawBrcHeader pw}
    (alive : ¬ (ob.header.shared.merged = true ∧ ob.header.shared.sharedCount.value = 0))
    (count : header.shared.sharedCount.value = ob.header.shared.sharedCount.value + 1)
    (merged : header.shared.merged = ob.header.shared.merged)
    (queued : header.shared.queued = ob.header.shared.queued)
    (biased : header.biased = ob.header.biased) :
    ObjectInv { ob with header := header, strong := raise ob.strong t } := by
  refine Object.Counted.undestroyed (inv.recount ?_ ?_ ?_ ?_) (inv.destroyed_eq_zero ?_) ?_
  · rw [total_raise]
    exact inv.counts.incrementShared count merged biased
  · rw [merged, biased]
    exact fun isMerged => (inv.released isMerged).1
  · rw [merged, queued, count]
    intro unmerged unqueued
    have := inv.unqueued unmerged unqueued
    omega
  · rw [queued]
    exact inv.pushed
  · intro isMerged
    have split := (inv.released isMerged).2
    simp only [isMerged, true_and] at alive
    omega
  · intro _
    simp only [total_raise]
    omega

theorem decrementBiased (inv : ObjectInv ob) (holds : 1 ≤ ob.strong t) {new : BiasedWord}
    (stored : ob.header.biased.decrementBiased thisId = .store new) :
    ObjectInv { ob with header := ob.header.storeBiased new, strong := lower ob.strong t } := by
  have unmerged := inv.unmerged_of_decrement (by rw [stored]; nofun)
  refine Object.Counted.undestroyed (inv.recount ?_ ?_ ?_ ?_) (inv.unmerged_undestroyed unmerged) ?_
  · exact inv.counts.decrementBiased (total_lower holds) unmerged stored
  · intro merged
    simp [unmerged] at merged
  · exact inv.unqueued
  · exact inv.pushed
  · intro merged
    simp [unmerged] at merged

theorem decrementBiasedSlow (inv : ObjectInv ob) (holds : 1 ≤ ob.strong t)
    (slow : ob.header.biased.decrementBiased thisId = .slow) :
    ObjectInv (ob.decrementBiasedSlow t) := by
  have unmerged := inv.unmerged_of_decrement (by rw [slow]; nofun)
  have counts := inv.counts.decrementBiasedSlow (total_lower holds) unmerged slow
  have count := counts.merged (by simp)
  simp only [RawBrcHeader.shared_fetchOrMerged] at count
  have counted : Object.Counted { ob with
      header := ob.header.fetchOrMerged.storeBiased .unowned, strong := lower ob.strong t } := by
    refine inv.recount (counts.release (by simp)) ?_ ?_ ?_
    · simp [BiasedWord.unowned]
    · simp
    · simpa using inv.pushed
  rw [Object.decrementBiasedSlow]
  split
  · exact counted.dealloc (inv.unmerged_undestroyed unmerged) (by simp) (by simp; omega)
  · exact counted.undestroyed (inv.unmerged_undestroyed unmerged) (by simp; omega)

theorem counted_decrementShared (inv : ObjectInv ob) (holds : 1 ≤ ob.strong t)
    {new : SharedWord pw} (exchanged : ob.header.shared.decremented = .ok new) :
    Object.Counted { ob with header := ob.header.storeShared new, strong := lower ob.strong t } := by
  obtain ⟨_, merged, queued⟩ := SharedWord.decremented_eq_ok exchanged
  refine inv.recount (inv.counts.decrementShared (total_lower holds) exchanged) ?_ ?_ ?_
  · simp only [RawBrcHeader.shared_storeShared, RawBrcHeader.biased_storeShared, merged]
    exact fun isMerged => (inv.released isMerged).1
  · simp only [RawBrcHeader.shared_storeShared, queued, Bool.or_eq_false_iff, decide_eq_false_iff_not]
    intro _ unqueued
    omega
  · have pushed := inv.pushed
    simp only [RawBrcHeader.shared_storeShared, queued]
    cases was : ob.header.shared.queued <;> simp [was] at pushed ⊢ <;> omega

end ObjectInv

namespace ObjectInv

theorem incrementStrongShared (inv : ObjectInv ob) (held : 1 ≤ total ob.strong)
    (noCarry : ob.header.shared.sharedCount.value ≠ -1) :
    Yields Fault.Overflow (ob.Becomes (raise ob.strong t) ob.weak) (ob.incrementStrongShared t) := by
  simp only [Object.incrementStrongShared]
  split
  · trivial
  · rename_i below
    have count : ob.header.shared.sharedCount.wrappingSucc.value =
        ob.header.shared.sharedCount.value + 1 :=
      SharedCount.value_wrappingSucc (RawBrcHeader.below_of_not_pastThreshold below)
    refine ⟨⟨inv.incrementShared ?_ ?_ ?_ ?_ rfl, .of_fields ?_ ?_ rfl, rfl, rfl⟩, ?_⟩
    · rintro ⟨merged, zero⟩
      have := (inv.released merged).2
      omega
    · simp only [RawBrcHeader.shared_fetchAddShared noCarry, count]
    · simp only [RawBrcHeader.shared_fetchAddShared noCarry]
    · simp only [RawBrcHeader.shared_fetchAddShared noCarry]
    · simp only [RawBrcHeader.shared_fetchAddShared noCarry]
    · simp only [RawBrcHeader.shared_fetchAddShared noCarry]
    · simp only [Object.Sunk, RawBrcHeader.shared_fetchAddShared noCarry, count]
      intro sunk queued unmerged
      have := sunk queued unmerged
      omega

theorem incrementStrong (inv : ObjectInv ob) (held : 1 ≤ total ob.strong)
    (noCarry : ob.header.biased.attemptIncrement thisId = none →
      ob.header.shared.sharedCount.value ≠ -1) :
    Yields Fault.Overflow (ob.Becomes (raise ob.strong t) ob.weak) (ob.incrementStrong t thisId) := by
  simp only [Object.incrementStrong]
  cases taken : ob.header.biased.attemptIncrement thisId with
  | none => exact inv.incrementStrongShared held (noCarry taken)
  | some new =>
      have owner := (BiasedWord.attemptIncrement_eq_some taken).2.2.1
      exact ⟨⟨inv.incrementBiased taken, .of_fields rfl rfl (by simpa using owner), rfl, rfl⟩,
        fun h => h⟩

/-- An upgrade fails exactly when the merged count is zero. -/
theorem incrementStrongUnlessZero (inv : ObjectInv ob) :
    Yields Fault.Overflow
      (fun result =>
        (result.2 = true ↔ ¬ (ob.header.shared.merged = true ∧ total ob.strong = 0)) ∧
          ob.Adjusts (if result.2 then raise ob.strong t else ob.strong) ob.weak result.1)
      (ob.incrementStrongUnlessZero t thisId) := by
  simp only [Object.incrementStrongUnlessZero]
  cases taken : ob.header.biased.attemptIncrement thisId with
  | some new =>
      obtain ⟨_, owned, owner, _⟩ := BiasedWord.attemptIncrement_eq_some taken
      have unmerged := inv.unmerged_of_owner owned
      refine ⟨by simp [unmerged], inv.incrementBiased taken, ?_, rfl, rfl⟩
      exact .of_fields rfl rfl (by simpa using owner)
  | none =>
      cases attempted : ob.header.shared.upgraded with
      | error fault =>
          rw [SharedWord.upgraded_eq_error attempted]
          trivial
      | ok result =>
          cases result with
          | none =>
              obtain ⟨merged, zero⟩ := SharedWord.upgraded_eq_none attempted
              have count := (inv.released merged).2
              have dropped : total ob.strong = 0 := by omega
              exact ⟨by simp [merged, dropped], inv, .of_fields rfl rfl rfl, rfl, rfl⟩
          | some new =>
              obtain ⟨alive, count, merged, queued⟩ := SharedWord.upgraded_eq_some attempted
              have holds : ¬ (ob.header.shared.merged = true ∧ total ob.strong = 0) := by
                rintro ⟨isMerged, dropped⟩
                have value := (inv.released isMerged).2
                exact alive ⟨isMerged, by omega⟩
              refine ⟨by simpa using holds, inv.incrementShared alive ?_ ?_ ?_ rfl, ?_, rfl, rfl⟩
              · simpa using count
              · simpa using merged
              · simpa using queued
              · exact .of_fields (by simpa using merged) (by simpa using queued) rfl

/-- A drop never fails. -/
theorem decrementShared (inv : ObjectInv ob) (holds : 1 ≤ ob.strong t) :
    Yields (fun _ => False)
      (fun result =>
        if result.2 then ob.Won (lower ob.strong t) result.1
        else ob.Becomes (lower ob.strong t) ob.weak result.1)
      (ob.decrementShared t) := by
  have held : 1 ≤ total ob.strong := holds.trans (le_total ob.strong t)
  have undestroyed := inv.held_undestroyed held
  have fewer := total_lower holds
  simp only [Object.decrementShared]
  cases exchanged : ob.header.shared.decremented with
  | error fault => exact inv.counts.decremented_ne_error exchanged
  | ok new =>
      obtain ⟨count, merged, queued⟩ := SharedWord.decremented_eq_ok exchanged
      have counted := inv.counted_decrementShared holds exchanged
      have released := counted.released
      have isDead := counted.counts.isDead_iff
      simp only [RawBrcHeader.shared_storeShared] at released isDead
      simp only [bind, Except.bind]
      split
      · rename_i won
        obtain ⟨unqueued, negative⟩ := (SharedWord.wonQueue_eq_true exchanged).mp won
        have unmerged : new.merged = false := by
          rw [Bool.eq_false_iff]
          intro isMerged
          have := (released isMerged).2
          omega
        have unpushed := inv.pushed
        simp only [unqueued, Bool.toNat_false] at unpushed
        exact ⟨counted.undestroyed undestroyed (by simp [unmerged]), unqueued, by simpa using unmerged,
          by simp [queued, negative], by simpa using negative, rfl, by simpa using unpushed, rfl, rfl⟩
      · rename_i lost
        have sameQueued : new.queued = ob.header.shared.queued := by
          rw [SharedWord.wonQueue_eq_true exchanged] at lost
          rw [queued]
          cases was : ob.header.shared.queued <;> simp [was] at lost ⊢
          exact lost
        split
        · rename_i dead
          obtain ⟨isMerged, none⟩ := isDead.mp dead
          refine ⟨⟨counted.dealloc undestroyed (by simpa using isMerged) none,
            .of_fields ?_ ?_ rfl, rfl, rfl⟩, fun _ => Object.sunk_of_merged ?_⟩
          · simpa [Object.dealloc, Object.dropWeak] using merged
          · simpa [Object.dealloc, Object.dropWeak] using sameQueued
          · simpa [Object.dealloc, Object.dropWeak] using isMerged
        · rename_i alive
          refine ⟨⟨counted.undestroyed undestroyed ?_, .of_fields (by simpa using merged)
            (by simpa using sameQueued) rfl, rfl, rfl⟩, ?_⟩
          · intro isMerged none
            exact alive (isDead.mpr ⟨by simpa using isMerged, none⟩)
          · simp only [Object.Sunk, RawBrcHeader.shared_storeShared, sameQueued, merged, count]
            intro sunk queued unmerged
            have := sunk queued unmerged
            omega

theorem decrementStrong (inv : ObjectInv ob) (holds : 1 ≤ ob.strong t)
    (unqueued : ob.header.biased.decrementBiased thisId = .slow → ob.header.shared.queued = false) :
    Yields (fun _ => False)
      (fun result =>
        if result.2 then ob.Won (lower ob.strong t) result.1
        else ob.Becomes (lower ob.strong t) ob.weak result.1)
      (ob.decrementStrong t thisId) := by
  simp only [Object.decrementStrong]
  cases taken : ob.header.biased.decrementBiased thisId with
  | store new =>
      have unmerged := inv.unmerged_of_decrement (by rw [taken]; nofun)
      obtain ⟨_, _, positive, _⟩ := inv.owned unmerged
      have owner := (BiasedWord.decrementBiased_eq_store taken positive).1
      exact ⟨⟨inv.decrementBiased holds taken, .of_fields rfl rfl (by simpa using owner), rfl, rfl⟩,
        fun h => h⟩
  | slow =>
      have merged : (ob.decrementBiasedSlow t).header.shared.merged = true := by
        rw [Object.decrementBiasedSlow]
        split <;> simp [Object.dealloc, Object.dropWeak]
      refine ⟨⟨inv.decrementBiasedSlow holds taken, ?_, ?_, ?_⟩, fun _ => Object.sunk_of_merged merged⟩
      · have unowned : (ob.decrementBiasedSlow t).header.biased.ownerId = none := by
          rw [Object.decrementBiasedSlow]
          split <;> simp [Object.dealloc, Object.dropWeak, BiasedWord.unowned]
        constructor
        · intro id
          simp only [Object.not_awaits_of_merged merged, Object.not_awaits_of_unqueued (unqueued taken)]
        · intro id owned
          rw [unowned] at owned
          cases owned
      all_goals
        rw [Object.decrementBiasedSlow]
        split <;> rfl
  | notOwner => exact inv.decrementShared holds

omit [DecidableEq Tid] in
/-- The owner's last biased reference is not given up while the object waits. -/
theorem unqueued_of_slow (inv : ObjectInv ob) (sunk : ob.Sunk) (held : 1 ≤ total ob.strong)
    (slow : ob.header.biased.decrementBiased thisId = .slow) : ob.header.shared.queued = false := by
  have unmerged := inv.unmerged_of_decrement (by rw [slow]; nofun)
  have one := BiasedWord.decrementBiased_eq_slow slow
  obtain ⟨_, _, _, split⟩ := inv.owned unmerged
  rw [Bool.eq_false_iff]
  intro queued
  have negative := sunk queued unmerged
  omega

omit [DecidableEq Tid] in
theorem explicitMerge (inv : ObjectInv ob) {id : ShortThreadId} (waits : ob.awaits id) :
    Yields (fun fault => fault.Overflow ∧ ¬ ob.Sunk) ob.Merges (ob.explicitMerge id) := by
  obtain ⟨unmerged, queued, owner⟩ := waits
  have undestroyed := inv.unmerged_undestroyed unmerged
  obtain ⟨_, _, positive, split⟩ := inv.owned unmerged
  simp only [Object.explicitMerge, owner, ne_eq, not_true_eq_false, if_false]
  cases merging : ob.header.shared.mergedWith ob.header.biased.biasedCount with
  | error fault =>
      obtain ⟨rfl, positive⟩ := SharedWord.mergedWith_eq_error merging unmerged
      refine ⟨trivial, fun sunk => ?_⟩
      have := sunk queued unmerged
      omega
  | ok new =>
      obtain ⟨_, count, merged, sameQueued⟩ := SharedWord.mergedWith_eq_ok merging
      have counts := inv.counts.explicitMerge merging
      have counted : Object.Counted { ob with
          header := (ob.header.storeShared new).storeBiased .unowned } := by
        refine inv.recount (counts.release (by simpa using merged)) ?_ ?_ ?_
        · simp [BiasedWord.unowned]
        · simp [merged]
        · simpa [sameQueued] using inv.pushed
      simp only [bind, Except.bind]
      split
      · omega
      · split
        · refine ⟨counted.dealloc undestroyed (by simpa using merged) (by simp; omega), ?_, rfl, rfl⟩
          simpa [Object.dealloc, Object.dropWeak] using merged
        · exact ⟨counted.undestroyed undestroyed (by simp; omega), by simpa using merged, rfl, rfl⟩

omit [DecidableEq Tid] in
/-- New weak handles with a weak count to match. -/
theorem reweigh (inv : ObjectInv ob) {weakCount : BitVec 32} {freed : Bool} {weak : Tid → Nat}
    (count : weakCount.toNat + ob.destroyed = total weak + 1)
    (isFreed : freed = true ↔ weakCount.toNat = 0) :
    ob.Becomes ob.strong weak { ob with weakCount := weakCount, freed := freed, weak := weak } where
  inv := {
    owned := inv.owned
    released := inv.released
    unqueued := inv.unqueued
    pushed := inv.pushed
    premature := inv.premature
    weakCount := count
    freed := isFreed
    destroyed := inv.destroyed }
  entry := .of_fields rfl rfl rfl
  strong := rfl
  weak := rfl
  sunk := fun h => h

theorem acquireWeak (inv : ObjectInv ob) (needed : ob.destroyed = 0 ∨ 1 ≤ total ob.weak) :
    Yields Fault.Overflow (ob.Becomes ob.strong (raise ob.weak t)) (ob.cloneWeak t) := by
  have allocated := inv.not_freed needed
  have count := inv.weakCount
  rw [Object.cloneWeak]
  split
  · trivial
  · rename_i below
    simp only [weakOverflowThreshold] at below
    have more : (ob.weakCount + 1).toNat = ob.weakCount.toNat + 1 := by
      simp only [BitVec.toNat_add, BitVec.ofNat_eq_ofNat, BitVec.toNat_ofNat]
      omega
    refine inv.reweigh ?_ ?_
    · rw [more, total_raise]
      omega
    · simp only [allocated, more, Bool.false_eq_true, false_iff]
      omega

theorem downgrade (inv : ObjectInv ob) (holds : 1 ≤ ob.strong t) :
    Yields Fault.Overflow (ob.Becomes ob.strong (raise ob.weak t)) (ob.downgrade t) :=
  inv.acquireWeak (.inl (inv.held_undestroyed (holds.trans (le_total ob.strong t))))

theorem cloneWeak (inv : ObjectInv ob) (holds : 1 ≤ ob.weak t) :
    Yields Fault.Overflow (ob.Becomes ob.strong (raise ob.weak t)) (ob.cloneWeak t) :=
  inv.acquireWeak (.inr (holds.trans (le_total ob.weak t)))

theorem releaseWeak (inv : ObjectInv ob) (holds : 1 ≤ ob.weak t) :
    ob.Becomes ob.strong (lower ob.weak t) (ob.releaseWeak t) := by
  have count := inv.weakCount
  have once := inv.destroyed_le_one
  have fewer := total_lower holds
  have covered : 1 ≤ ob.weakCount.toNat := by omega
  have lowered : (ob.weakCount - 1).toNat + 1 = ob.weakCount.toNat :=
    Object.dropWeak_weakCount covered
  refine inv.reweigh ?_ (Object.dropWeak_freed covered inv.freed)
  change (ob.weakCount - 1).toNat + ob.destroyed = _
  omega

theorem send (inv : ObjectInv ob) {source target : Tid} (holds : 1 ≤ ob.strong source) :
    ob.Becomes (raise (lower ob.strong source) target) ob.weak
      { ob with strong := raise (lower ob.strong source) target } := by
  have same : total (raise (lower ob.strong source) target) = total ob.strong := by
    rw [total_raise, total_lower holds]
  refine ⟨⟨⟨inv.recount ?_ (fun merged => (inv.released merged).1) inv.unqueued inv.pushed, ?_⟩,
    .of_fields rfl rfl rfl, rfl, rfl⟩, fun h => h⟩
  · rw [same]
    exact inv.counts
  · simp only [same]
    exact inv.destroyed

theorem sendWeak (inv : ObjectInv ob) {source target : Tid} (holds : 1 ≤ ob.weak source) :
    ob.Becomes ob.strong (raise (lower ob.weak source) target)
      { ob with weak := raise (lower ob.weak source) target } := by
  have same : total (raise (lower ob.weak source) target) = total ob.weak := by
    rw [total_raise, total_lower holds]
  exact inv.reweigh (by rw [same]; exact inv.weakCount) inv.freed

end ObjectInv

end

end BiasedRc
