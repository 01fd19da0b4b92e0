import BiasedRc.Words

/-! # What the header operations compute

Every operation of `RawBrcHeader` loads a word, computes the next one from the
decoded fields and the caller's short id, and stores or exchanges it. This file
holds those computations, one per source function. Calls that run without
interruption and calls that interleave at every access are both built from them.
-/

namespace BiasedRc

/-- Ways the process ends: `fatal_errors`, `undefined_behavior`, failed
    assertions, and the use of a deallocated header. -/
inductive Fault where
  | sharedRefcntUnderflow
  | sharedRefcntOverflow
  | mergedRefcntOverflow
  | weakRefcntOverflow
  | negativeRefcntMerge
  | explicitMergeBadId
  | negativeRefcntNoOwner
  | ownerUndefinedState
  /-- `assert!(!old_word.merged)` in `explicit_merge`. -/
  | alreadyMerged
  /-- "thread is {this_state:?} but has no queue". -/
  | liveWithoutQueue
  | useAfterFree
  deriving DecidableEq, Repr

/-- A counter ran out of bits; the documented reason for an abort. -/
def Fault.Overflow : Fault → Prop
  | .sharedRefcntOverflow | .mergedRefcntOverflow | .weakRefcntOverflow => True
  | _ => False

/-- `WEAK_OVERFLOW_THRESHOLD`. -/
def weakOverflowThreshold : Nat := (2 ^ 32 - 1) / 2

/-- `WEAK_LOCKED_COUNT`. -/
def weakLockedCount : BitVec 32 := BitVec.allOnes 32

/-- A weak exchange stores if it finds the expected word and does not fail spuriously. -/
theorem exchanges_iff {α : Type} [DecidableEq α] {spurious : Bool} {word old : α} :
    (!spurious && decide (word = old)) = true ↔ spurious = false ∧ word = old := by
  simp only [Bool.and_eq_true, Bool.not_eq_true', decide_eq_true_eq]

namespace BiasedWord

/-- `attempt_biased_increment`: the word to store, or `FastIncrementFailure`. -/
def attemptIncrement (w : BiasedWord) (thisId : Option ShortThreadId) : Option BiasedWord :=
  if w.biasedCount = BitVec.allOnes 20 then none
  else
    match thisId with
    | none => none
    | some id =>
        if w.ownerId = some id then some { w with biasedCount := w.biasedCount + 1 } else none

/-- What `decrement_biased` does after its load. -/
inductive Decrement where
  /-- `FastDecrementFailure`. -/
  | notOwner
  | store (new : BiasedWord)
  /-- `decrement_biased_slow`. -/
  | slow
  deriving DecidableEq

def decrementBiased (w : BiasedWord) (thisId : Option ShortThreadId) : Decrement :=
  match w.ownerId, thisId with
  | none, _ => .notOwner
  | some _, none => .notOwner
  | some owner, some id =>
      if id = owner then
        if 0 < (w.biasedCount - 1).toNat then .store { w with biasedCount := w.biasedCount - 1 }
        else .slow
      else .notOwner

/-- `is_definitely_not_unique`. -/
def isDefinitelyNotUnique (w : BiasedWord) (thisId : Option ShortThreadId) : Bool :=
  w.ownerId.isSome && w.ownerId != thisId

theorem attemptIncrement_eq_some {w new : BiasedWord} {thisId}
    (h : w.attemptIncrement thisId = some new) :
    thisId = w.ownerId ∧ w.ownerId.isSome ∧ new.ownerId = w.ownerId ∧
      new.biasedCount.toNat = w.biasedCount.toNat + 1 := by
  simp only [attemptIncrement] at h
  split at h
  · cases h
  · rename_i below
    cases thisId with
    | none => cases h
    | some id =>
        simp only [Option.ite_none_right_eq_some, Option.some.injEq] at h
        obtain ⟨owned, rfl⟩ := h
        refine ⟨owned.symm, by simp [owned], rfl, ?_⟩
        have bound := w.biasedCount.isLt
        have notMax : w.biasedCount.toNat ≠ 2 ^ 20 - 1 := fun same =>
          below (BitVec.eq_of_toNat_eq (by rw [same]; rfl))
        simp only [BitVec.toNat_add, BitVec.reduceToNat]
        omega

theorem owner_of_decrementBiased {w : BiasedWord} {thisId}
    (owner : w.decrementBiased thisId ≠ .notOwner) : thisId = w.ownerId ∧ w.ownerId.isSome := by
  simp only [decrementBiased] at owner
  split at owner
  · exact absurd rfl owner
  · exact absurd rfl owner
  · rename_i owner' id ownedBy
    split at owner
    · rename_i same
      exact ⟨by rw [ownedBy, same], by simp [ownedBy]⟩
    · exact absurd rfl owner

theorem decrementBiased_eq_store {w new : BiasedWord} {thisId}
    (h : w.decrementBiased thisId = .store new) (positive : 1 ≤ w.biasedCount.toNat) :
    new.ownerId = w.ownerId ∧ new.biasedCount.toNat + 1 = w.biasedCount.toNat ∧
      1 ≤ new.biasedCount.toNat := by
  simp only [decrementBiased] at h
  split at h
  · cases h
  · cases h
  · rename_i owner id ownedBy
    split at h
    · rename_i same
      split at h
      · rename_i remains
        cases h
        have bound := w.biasedCount.isLt
        refine ⟨rfl, ?_, ?_⟩ <;>
          simp only [BitVec.toNat_sub, BitVec.reduceToNat] at remains ⊢ <;> omega
      · cases h
    · cases h

theorem decrementBiased_eq_slow {w : BiasedWord} {thisId}
    (h : w.decrementBiased thisId = .slow) : w.biasedCount.toNat = 1 := by
  simp only [decrementBiased] at h
  split at h
  · cases h
  · cases h
  · rename_i owner id ownedBy
    split at h
    · rename_i same
      split at h
      · cases h
      · rename_i last
        have bound := w.biasedCount.isLt
        simp only [BitVec.toNat_sub, BitVec.reduceToNat] at last
        omega
    · cases h

theorem decrementBiased_eq_notOwner {w : BiasedWord} {thisId}
    (h : w.decrementBiased thisId = .notOwner) : w.ownerId = none ∨ thisId ≠ w.ownerId := by
  simp only [decrementBiased] at h
  split at h
  · exact .inl ‹_›
  · rename_i ownedBy
    exact .inr (by simp [ownedBy])
  · rename_i owner id ownedBy
    split at h
    · split at h <;> cases h
    · rename_i different
      exact .inr (by rw [ownedBy]; simpa using different)

end BiasedWord

namespace SharedWord

variable {pw : PointerWidth}

/-- Loop body of `decrement_shared`: the word to exchange in. -/
def decremented (old : SharedWord pw) : Except Fault (SharedWord pw) :=
  match old.sharedCount.checkedSub (.ofInt 1) with
  | none => .error .sharedRefcntUnderflow
  | some count =>
      .ok { old with sharedCount := count, queued := if count.value < 0 then true else old.queued }

/-- `old.queued != new.queued`: the winner queues the object. -/
def wonQueue (old new : SharedWord pw) : Bool := old.queued != new.queued

/-- `new.merged && new.shared_count.value() == 0`. -/
def isDead (w : SharedWord pw) : Bool := w.merged && w.sharedCount.value == 0

/-- Closure of `fetch_update` in `increment_strong_unless_zero`; `none` ends the
    update with `ZeroReferenceCountError`. -/
def upgraded (old : SharedWord pw) : Except Fault (Option (SharedWord pw)) :=
  if old.isDead then .ok none
  else
    match old.sharedCount.checkedAdd (.ofInt 1) with
    | none => .error .sharedRefcntOverflow
    | some count => .ok (some { old with sharedCount := count })

/-- Loop body of `explicit_merge`. -/
def mergedWith (old : SharedWord pw) (biased : BiasedCount) : Except Fault (SharedWord pw) :=
  if old.merged then .error .alreadyMerged
  else
    match old.sharedCount.checkedAdd (.ofBiased biased) with
    | none => .error .mergedRefcntOverflow
    | some count => .ok { old with sharedCount := count, merged := true }

theorem decremented_eq_ok {old new : SharedWord pw} (h : old.decremented = .ok new) :
    new.sharedCount.value = old.sharedCount.value - 1 ∧ new.merged = old.merged ∧
      new.queued = (old.queued || decide (new.sharedCount.value < 0)) := by
  simp only [decremented] at h
  split at h
  · cases h
  · rename_i count taken
    cases h
    have value := SharedCount.checkedSub_eq_some taken
    rw [SharedCount.value_one] at value
    refine ⟨value, rfl, ?_⟩
    by_cases negative : count.value < 0 <;> simp [negative]

theorem decremented_eq_error {old : SharedWord pw} {fault} (h : old.decremented = .error fault) :
    old.sharedCount.value ≤ -(2 ^ 20) := by
  simp only [decremented] at h
  split at h
  · rename_i failed
    have out := SharedCount.checkedSub_eq_none failed
    have high := old.sharedCount.value_le
    rw [SharedCount.value_one] at out
    cases pw <;> simp only [SharedCount.minValue, SharedCount.maxValue, PointerWidth.sharedBits] at * <;>
      omega
  · cases h

theorem wonQueue_eq_true {old new : SharedWord pw} (h : old.decremented = .ok new) :
    old.wonQueue new = true ↔ old.queued = false ∧ new.sharedCount.value < 0 := by
  have queued := (decremented_eq_ok h).2.2
  simp only [wonQueue, queued]
  cases old.queued <;> simp

theorem isDead_eq_true {w : SharedWord pw} :
    w.isDead = true ↔ w.merged = true ∧ w.sharedCount.value = 0 := by
  simp only [isDead, Bool.and_eq_true, beq_iff_eq]

theorem upgraded_eq_none {old : SharedWord pw} (h : old.upgraded = .ok none) :
    old.merged = true ∧ old.sharedCount.value = 0 := by
  simp only [upgraded] at h
  split at h
  · rename_i dead
    simpa [isDead] using dead
  · split at h <;> simp at h

theorem upgraded_eq_some {old new : SharedWord pw} (h : old.upgraded = .ok (some new)) :
    ¬ (old.merged = true ∧ old.sharedCount.value = 0) ∧
      new.sharedCount.value = old.sharedCount.value + 1 ∧ new.merged = old.merged ∧
      new.queued = old.queued := by
  simp only [upgraded] at h
  split at h
  · simp at h
  · rename_i alive
    split at h
    · cases h
    · rename_i count taken
      simp only [Except.ok.injEq, Option.some.injEq] at h
      subst h
      have value := SharedCount.checkedAdd_eq_some taken
      rw [SharedCount.value_one] at value
      exact ⟨by simpa [isDead] using alive, value, rfl, rfl⟩

theorem upgraded_eq_error {old : SharedWord pw} {fault} (h : old.upgraded = .error fault) :
    fault = .sharedRefcntOverflow := by
  simp only [upgraded] at h
  split at h
  · cases h
  · split at h <;> cases h
    rfl

theorem mergedWith_eq_ok {old new : SharedWord pw} {biased} (h : old.mergedWith biased = .ok new) :
    old.merged = false ∧ new.sharedCount.value = old.sharedCount.value + biased.toNat ∧
      new.merged = true ∧ new.queued = old.queued := by
  simp only [mergedWith] at h
  split at h
  · cases h
  · rename_i unmerged
    split at h
    · cases h
    · rename_i count taken
      cases h
      have value := SharedCount.checkedAdd_eq_some taken
      rw [SharedCount.value_ofBiased] at value
      exact ⟨by simpa using unmerged, value, rfl, rfl⟩

theorem mergedWith_eq_error {old : SharedWord pw} {biased fault}
    (h : old.mergedWith biased = .error fault) (unmerged : old.merged = false) :
    fault = .mergedRefcntOverflow ∧ 0 < old.sharedCount.value := by
  simp only [mergedWith, unmerged, Bool.false_eq_true, if_false] at h
  split at h
  · rename_i failed
    cases h
    have out := SharedCount.checkedAdd_eq_none failed
    have low := old.sharedCount.le_value
    have small := biased.isLt
    rw [SharedCount.value_ofBiased] at out
    refine ⟨rfl, ?_⟩
    cases pw <;> simp only [SharedCount.minValue, SharedCount.maxValue, PointerWidth.sharedBits] at * <;>
      omega
  · cases h

end SharedWord

/-- `RawBrcHeader`, as the two atomics hold it. -/
structure RawBrcHeader (pw : PointerWidth) where
  sharedWord : BitVec pw.usizeBits
  biasedWord : BitVec 32
  deriving DecidableEq

namespace RawBrcHeader

variable {pw : PointerWidth}

/-- `SharedWord::from_raw(self.shared_word.load(..))`. -/
def shared (h : RawBrcHeader pw) : SharedWord pw := .fromRaw h.sharedWord

/-- `BiasedWord::from_raw(self.biased_word.load(..))`. -/
def biased (h : RawBrcHeader pw) : BiasedWord := .fromRaw h.biasedWord

def storeShared (h : RawBrcHeader pw) (w : SharedWord pw) : RawBrcHeader pw :=
  { h with sharedWord := w.toRaw }

def storeBiased (h : RawBrcHeader pw) (w : BiasedWord) : RawBrcHeader pw :=
  { h with biasedWord := w.toRaw }

@[simp] theorem shared_storeShared (h : RawBrcHeader pw) (w : SharedWord pw) :
    (h.storeShared w).shared = w := SharedWord.fromRaw_toRaw w

@[simp] theorem biased_storeShared (h : RawBrcHeader pw) (w : SharedWord pw) :
    (h.storeShared w).biased = h.biased := rfl

@[simp] theorem biased_storeBiased (h : RawBrcHeader pw) (w : BiasedWord) :
    (h.storeBiased w).biased = w := BiasedWord.fromRaw_toRaw w

@[simp] theorem shared_storeBiased (h : RawBrcHeader pw) (w : BiasedWord) :
    (h.storeBiased w).shared = h.shared := rfl

/-- `RawBrcHeader::init`, given the id the calling thread ends up with. -/
def init (thisId : Option ShortThreadId) : RawBrcHeader pw :=
  match thisId with
  | none =>
      { sharedWord := SharedWord.toRaw ⟨.ofInt 1, true, false⟩
        biasedWord := BiasedWord.unowned.toRaw }
  | some id =>
      { sharedWord := SharedWord.toRaw ⟨.ofInt 0, false, false⟩
        biasedWord := BiasedWord.toRaw ⟨some id, 1⟩ }

@[simp] theorem shared_init_none :
    (init none : RawBrcHeader pw).shared = ⟨.ofInt 1, true, false⟩ := SharedWord.fromRaw_toRaw _

@[simp] theorem biased_init_none : (init none : RawBrcHeader pw).biased = .unowned :=
  BiasedWord.fromRaw_toRaw _

@[simp] theorem shared_init_some (id : ShortThreadId) :
    (init (some id) : RawBrcHeader pw).shared = ⟨.ofInt 0, false, false⟩ :=
  SharedWord.fromRaw_toRaw _

@[simp] theorem biased_init_some (id : ShortThreadId) :
    (init (some id) : RawBrcHeader pw).biased = ⟨some id, 1⟩ := BiasedWord.fromRaw_toRaw _

/-- `shared_word.fetch_add(1)` of `increment_strong_shared`. -/
def fetchAddShared (h : RawBrcHeader pw) : RawBrcHeader pw :=
  { h with sharedWord := h.sharedWord + 1#_ }

/-- `shared_word.fetch_or(MERGED_BIT)` of `decrement_biased_slow`. -/
def fetchOrMerged (h : RawBrcHeader pw) : RawBrcHeader pw :=
  { h with sharedWord := h.sharedWord ||| SharedWord.mergedBit pw }

@[simp] theorem biased_fetchAddShared (h : RawBrcHeader pw) :
    h.fetchAddShared.biased = h.biased := rfl

@[simp] theorem biased_fetchOrMerged (h : RawBrcHeader pw) :
    h.fetchOrMerged.biased = h.biased := rfl

theorem toRaw_shared (h : RawBrcHeader pw) : h.shared.toRaw = h.sharedWord :=
  SharedWord.toRaw_fromRaw h.sharedWord

@[simp] theorem shared_fetchOrMerged (h : RawBrcHeader pw) :
    h.fetchOrMerged.shared = { h.shared with merged := true } :=
  SharedWord.fromRaw_or_mergedBit h.sharedWord

theorem shared_fetchAddShared {h : RawBrcHeader pw} (noCarry : h.shared.sharedCount.value ≠ -1) :
    h.fetchAddShared.shared =
      { h.shared with sharedCount := h.shared.sharedCount.wrappingSucc } := by
  change SharedWord.fromRaw (h.sharedWord + 1#_) = _
  rw [← toRaw_shared, SharedWord.toRaw_add_one noCarry, SharedWord.fromRaw_toRaw]

theorem shared_fetchAddShared_carry {h : RawBrcHeader pw} (carry : h.shared.sharedCount.value = -1) :
    h.fetchAddShared.shared =
      ⟨.ofInt 0, !h.shared.merged, h.shared.queued ^^ h.shared.merged⟩ := by
  change SharedWord.fromRaw (h.sharedWord + 1#_) = _
  rw [← toRaw_shared, SharedWord.toRaw_add_one_carry carry, SharedWord.fromRaw_toRaw]

/-- The check of `increment_strong_shared` on the value `fetch_add` returned. -/
def pastThreshold (old : SharedWord pw) : Bool :=
  SharedWord.overflowThreshold pw < old.sharedCount.value

theorem below_of_not_pastThreshold {old : SharedWord pw} (below : ¬ pastThreshold old = true) :
    old.sharedCount.value < SharedCount.maxValue pw := by
  rw [pastThreshold, decide_eq_true_eq] at below
  simp only [SharedWord.overflowThreshold, SharedCount.maxValue] at below ⊢
  cases pw <;> simp only [PointerWidth.sharedBits] at below ⊢ <;> omega

/-- `fetch_add(1)` has the effect of the `checked_add` update of `increment_strong_unless_zero`. -/
def IncrementAgrees (w : SharedWord pw) : Prop :=
  ∃ new : SharedWord pw, new.sharedCount.value = w.sharedCount.value + 1 ∧
    new.merged = w.merged ∧ new.queued = w.queued ∧
    (w.isDead = false → w.upgraded = .ok (some new)) ∧
    ∀ biasedWord, fetchAddShared ⟨w.toRaw, biasedWord⟩ = ⟨new.toRaw, biasedWord⟩

theorem wrappingSucc_of_checkedAdd {c : SharedCount pw} (below : c.value < SharedCount.maxValue pw) :
    c.checkedAdd (.ofInt 1) = some c.wrappingSucc := by
  cases added : c.checkedAdd (.ofInt 1) with
  | none =>
      have out := SharedCount.checkedAdd_eq_none added
      have low := c.le_value
      rw [SharedCount.value_one] at out
      omega
  | some new =>
      have value := SharedCount.checkedAdd_eq_some added
      rw [SharedCount.value_one, ← SharedCount.value_wrappingSucc below] at value
      rw [SharedCount.ext_value value]

/-- The two increments differ at one count only. -/
theorem incrementAgrees_iff {w : SharedWord pw}
    (below : w.sharedCount.value ≤ SharedWord.overflowThreshold pw) :
    IncrementAgrees w ↔ w.sharedCount.value ≠ -1 := by
  have room : w.sharedCount.value < SharedCount.maxValue pw :=
    below_of_not_pastThreshold (by simpa [pastThreshold] using below)
  constructor
  · rintro ⟨new, _, merged, _, _, raw⟩ carry
    have stored := congrArg sharedWord (raw 0)
    simp only [fetchAddShared, SharedWord.toRaw_add_one_carry carry] at stored
    have flag := congrArg SharedWord.merged (SharedWord.toRaw_injective stored)
    simp [merged] at flag
  · intro noCarry
    refine ⟨{ w with sharedCount := w.sharedCount.wrappingSucc }, ?_, rfl, rfl, ?_, ?_⟩
    · exact SharedCount.value_wrappingSucc room
    · intro alive
      simp only [SharedWord.upgraded, alive, Bool.false_eq_true, if_false,
        wrappingSucc_of_checkedAdd room]
    · intro biasedWord
      simp only [fetchAddShared, SharedWord.toRaw_add_one noCarry]

theorem incrementAgrees_iff_of_queued :
    IncrementAgrees (⟨.ofInt (-2), false, true⟩ : SharedWord .w64) ↔
      (.ofInt (-2) : SharedCount .w64).value ≠ -1 :=
  incrementAgrees_iff (by decide)

/-- An unmerged word with its object in the owner's queue. -/
theorem increment_disagrees : ¬ ∀ w : SharedWord .w64,
    w.sharedCount.value ≤ SharedWord.overflowThreshold .w64 → IncrementAgrees w := by
  intro agrees
  obtain ⟨new, _, merged, _, _, raw⟩ := agrees ⟨.ofInt (-1), false, true⟩ (by decide)
  have stored := congrArg (fun h => (SharedWord.fromRaw h.sharedWord).merged) (raw 0)
  simp only [SharedWord.fromRaw_toRaw, merged] at stored
  revert stored
  decide

/-- `strong_count` from its two loads; an error carries `lower_bound`. -/
def strongCount (thisId : Option ShortThreadId) (shared : SharedWord pw) (biased : BiasedWord) :
    Except Nat Nat :=
  let asUsize (v : Int) : Nat := (v % 2 ^ pw.usizeBits).toNat
  if shared.merged then .ok (asUsize shared.sharedCount.value)
  else if biased.ownerId = thisId then
    .ok (asUsize (biased.biasedCount.toNat + shared.sharedCount.value))
  else .error (max shared.sharedCount.value 0).toNat

theorem strongCount_of_merged {shared : SharedWord pw} {thisId biased} {n : Nat}
    (merged : shared.merged = true) (count : shared.sharedCount.value = n) :
    strongCount thisId shared biased = .ok n := by
  have high := shared.sharedCount.value_le
  simp only [strongCount, merged, if_true, count, Except.ok.injEq]
  rw [count] at high
  cases pw <;>
    simp only [SharedCount.maxValue, PointerWidth.usizeBits, PointerWidth.sharedBits] at high ⊢ <;>
    omega

theorem strongCount_of_owner {shared : SharedWord pw} {thisId} {biased : BiasedWord} {n : Nat}
    (unmerged : shared.merged = false) (owner : biased.ownerId = thisId)
    (count : (biased.biasedCount.toNat : Int) + shared.sharedCount.value = n) :
    strongCount thisId shared biased = .ok n := by
  have high := shared.sharedCount.value_le
  have small := biased.biasedCount.isLt
  simp only [strongCount, unmerged, Bool.false_eq_true, if_false, owner, if_true, count,
    Except.ok.injEq]
  cases pw <;>
    simp only [SharedCount.maxValue, PointerWidth.usizeBits, PointerWidth.sharedBits] at high ⊢ <;>
    omega

/-- The count is known when it is merged, or to the owner. -/
theorem settled_of_strongCount {shared : SharedWord pw} {thisId} {biased : BiasedWord} {n : Nat}
    (known : strongCount thisId shared biased = .ok n) :
    shared.merged = true ∨ shared.merged = false ∧ biased.ownerId = thisId := by
  cases merged : shared.merged with
  | true => exact .inl rfl
  | false =>
      simp only [strongCount, merged, Bool.false_eq_true, if_false] at known
      split at known
      · rename_i owner
        exact .inr ⟨rfl, owner⟩
      · cases known

/-- `RawBrcHeader::is_unique` from the same two loads. -/
def isUnique (thisId : Option ShortThreadId) (shared : SharedWord pw) (biased : BiasedWord) :
    Bool :=
  match strongCount thisId shared biased with
  | .ok count => count == 1
  | .error _ => false

theorem isUnique_eq_true {thisId} {shared : SharedWord pw} {biased : BiasedWord} :
    isUnique thisId shared biased = true ↔ strongCount thisId shared biased = .ok 1 := by
  unfold isUnique
  cases strongCount thisId shared biased <;> simp

/-- Which sum a uniqueness test has found to be one. -/
theorem isUnique_iff {thisId} {shared : SharedWord pw} {biased : BiasedWord} :
    isUnique thisId shared biased = true ↔
      shared.merged = true ∧ shared.sharedCount.value = 1 ∨
      shared.merged = false ∧ biased.ownerId = thisId ∧
        (biased.biasedCount.toNat : Int) + shared.sharedCount.value = 1 := by
  have high := shared.sharedCount.value_le
  have low := shared.sharedCount.le_value
  have small := biased.biasedCount.isLt
  rw [isUnique_eq_true]
  constructor
  · intro unique
    rcases settled_of_strongCount unique with merged | ⟨unmerged, owner⟩
    · simp only [strongCount, merged, if_true, Except.ok.injEq] at unique
      refine .inl ⟨merged, ?_⟩
      cases pw <;> simp only [SharedCount.maxValue, SharedCount.minValue, PointerWidth.usizeBits,
        PointerWidth.sharedBits] at high low unique <;> omega
    · simp only [strongCount, unmerged, Bool.false_eq_true, if_false, owner, if_true,
        Except.ok.injEq] at unique
      refine .inr ⟨unmerged, owner, ?_⟩
      cases pw <;> simp only [SharedCount.maxValue, SharedCount.minValue, PointerWidth.usizeBits,
        PointerWidth.sharedBits] at high low unique <;> omega
  · rintro (⟨merged, one⟩ | ⟨unmerged, owner, one⟩)
    · exact strongCount_of_merged merged one
    · exact strongCount_of_owner unmerged owner one

end RawBrcHeader

end BiasedRc
