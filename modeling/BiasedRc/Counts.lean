import BiasedRc.Header

/-! # The number of handles a header stands for

Until the counts are merged the number of strong handles is the sum of the
biased and the shared count, and the header has an owner. Afterwards it is the
shared count alone. The word that an operation stores moves this number by the
one handle that it makes or gives up, and merging does not move it. Nothing here
depends on whether other calls run between the accesses of an operation.
-/

namespace BiasedRc

namespace RawBrcHeader

variable {pw : PointerWidth}

/-- The header stands for `n` strong handles. -/
structure Counts (h : RawBrcHeader pw) (n : Nat) : Prop where
  owned : h.shared.merged = false → ∃ id, h.biased.ownerId = some id ∧
    1 ≤ h.biased.biasedCount.toNat ∧
    (h.biased.biasedCount.toNat : Int) + h.shared.sharedCount.value = n
  merged : h.shared.merged = true → h.shared.sharedCount.value = n

namespace Counts

variable {h h' : RawBrcHeader pw} {n left : Nat} {thisId : Option ShortThreadId}

/-- A word is dead when it is the merged count of no handles. -/
theorem isDead_iff (counts : h.Counts n) :
    h.shared.isDead = true ↔ h.shared.merged = true ∧ n = 0 := by
  rw [SharedWord.isDead_eq_true]
  constructor
  · rintro ⟨merged, zero⟩
    have count := counts.merged merged
    exact ⟨merged, by omega⟩
  · rintro ⟨merged, zero⟩
    have count := counts.merged merged
    exact ⟨merged, by omega⟩

/-- The shared count is at most a `u20` of biased references below zero: no underflow. -/
theorem decremented_ne_error (counts : h.Counts n) {fault : Fault} :
    h.shared.decremented ≠ .error fault := by
  intro failed
  have low := SharedWord.decremented_eq_error failed
  cases merged : h.shared.merged with
  | true =>
      have count := counts.merged merged
      omega
  | false =>
      obtain ⟨_, _, _, split⟩ := counts.owned merged
      have bound := h.biased.biasedCount.isLt
      omega

/-- `strong_count` on a header at rest: the number of handles, to whoever can know it. -/
theorem strongCount_iff (counts : h.Counts n) {count : Nat} :
    strongCount thisId h.shared h.biased = .ok count ↔
      count = n ∧ (h.shared.merged = true ∨ h.biased.ownerId = thisId) := by
  constructor
  · intro known
    rcases settled_of_strongCount known with merged | ⟨unmerged, owner⟩
    · rw [strongCount_of_merged merged (counts.merged merged), Except.ok.injEq] at known
      exact ⟨known.symm, .inl merged⟩
    · obtain ⟨_, _, _, split⟩ := counts.owned unmerged
      rw [strongCount_of_owner unmerged owner split, Except.ok.injEq] at known
      exact ⟨known.symm, .inr owner⟩
  · rintro ⟨rfl, known⟩
    cases merged : h.shared.merged with
    | true => exact strongCount_of_merged merged (counts.merged merged)
    | false =>
        obtain ⟨_, _, _, split⟩ := counts.owned merged
        exact strongCount_of_owner merged (known.resolve_left (by simp [merged])) split

theorem incrementBiased (counts : h.Counts n) (unmerged : h.shared.merged = false)
    {new : BiasedWord} (taken : h.biased.attemptIncrement thisId = some new) :
    (h.storeBiased new).Counts (n + 1) where
  owned _ := by
    obtain ⟨_, _, sameOwner, count⟩ := BiasedWord.attemptIncrement_eq_some taken
    obtain ⟨id, owner, positive, split⟩ := counts.owned unmerged
    refine ⟨id, by simp [sameOwner, owner], by simp [count], ?_⟩
    simp only [biased_storeBiased, shared_storeBiased, count]
    push_cast
    omega
  merged merged := by simp [unmerged] at merged

/-- One more handle through the shared word. -/
theorem incrementShared (counts : h.Counts n)
    (count : h'.shared.sharedCount.value = h.shared.sharedCount.value + 1)
    (merged : h'.shared.merged = h.shared.merged) (biased : h'.biased = h.biased) :
    h'.Counts (n + 1) where
  owned := by
    rw [merged, biased, count]
    intro unmerged
    obtain ⟨id, owner, positive, split⟩ := counts.owned unmerged
    exact ⟨id, owner, positive, by push_cast; omega⟩
  merged := by
    rw [merged, count]
    intro isMerged
    have split := counts.merged isMerged
    push_cast
    omega

theorem decrementBiased (counts : h.Counts n) (fewer : left + 1 = n)
    (unmerged : h.shared.merged = false) {new : BiasedWord}
    (stored : h.biased.decrementBiased thisId = .store new) : (h.storeBiased new).Counts left where
  owned _ := by
    obtain ⟨id, owner, positive, split⟩ := counts.owned unmerged
    obtain ⟨sameOwner, count, remains⟩ := BiasedWord.decrementBiased_eq_store stored positive
    refine ⟨id, by simp [sameOwner, owner], by simpa using remains, ?_⟩
    simp only [biased_storeBiased, shared_storeBiased]
    omega
  merged merged := by simp [unmerged] at merged

/-- The owner's last biased reference goes, and the shared count is what is left. -/
theorem decrementBiasedSlow (counts : h.Counts n) (fewer : left + 1 = n)
    (unmerged : h.shared.merged = false) (slow : h.biased.decrementBiased thisId = .slow) :
    h.fetchOrMerged.Counts left where
  owned isUnmerged := by simp at isUnmerged
  merged _ := by
    have one := BiasedWord.decrementBiased_eq_slow slow
    obtain ⟨_, _, _, split⟩ := counts.owned unmerged
    simp only [shared_fetchOrMerged]
    omega

theorem decrementShared (counts : h.Counts n) (fewer : left + 1 = n) {new : SharedWord pw}
    (exchanged : h.shared.decremented = .ok new) : (h.storeShared new).Counts left := by
  obtain ⟨count, merged, _⟩ := SharedWord.decremented_eq_ok exchanged
  constructor
  · simp only [shared_storeShared, biased_storeShared, merged, count]
    intro unmerged
    obtain ⟨id, owner, positive, split⟩ := counts.owned unmerged
    exact ⟨id, owner, positive, by omega⟩
  · simp only [shared_storeShared, merged, count]
    intro isMerged
    have split := counts.merged isMerged
    omega

theorem explicitMerge (counts : h.Counts n) {new : SharedWord pw}
    (merging : h.shared.mergedWith h.biased.biasedCount = .ok new) :
    (h.storeShared new).Counts n := by
  obtain ⟨unmerged, count, merged, _⟩ := SharedWord.mergedWith_eq_ok merging
  constructor
  · intro isUnmerged
    simp [merged] at isUnmerged
  · intro _
    obtain ⟨_, _, _, split⟩ := counts.owned unmerged
    simp only [shared_storeShared]
    omega

/-- After the merge the biased word is free for the owner to clear. -/
theorem release (counts : h.Counts n) (merged : h.shared.merged = true) {new : BiasedWord} :
    (h.storeBiased new).Counts n where
  owned unmerged := by simp [merged] at unmerged
  merged := counts.merged

end Counts

end RawBrcHeader

end BiasedRc
