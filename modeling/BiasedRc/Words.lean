import Mathlib.Data.Nat.Basic
import Mathlib.Tactic.Ring

/-! # Packed counter words

A header keeps two atomic words. The biased word packs an optional 12-bit owner
id and a 20-bit count into a `u32`; the shared word packs a signed count and the
`merged` and `queued` flags into a `usize`. The code decodes a word after every
load and encodes it before every store, so the model stores raw words too and
goes through `fromRaw` and `toRaw` in the same places.
-/

namespace BiasedRc

/-- `target_pointer_width`; other widths do not compile. -/
inductive PointerWidth where
  | w32
  | w64
  deriving DecidableEq, Repr

namespace PointerWidth

/-- Width of `SharedCountInner`: `i30` or `i62`. -/
def sharedBits : PointerWidth → Nat
  | .w32 => 30
  | .w64 => 62

/-- Width of `usize`, which is `SharedWord::BITS`. -/
abbrev usizeBits (pw : PointerWidth) : Nat := pw.sharedBits + 2

end PointerWidth

/-- `ShortThreadId(NonZeroU16)`, known to fit 12 bits. -/
structure ShortThreadId where
  value : BitVec 12
  nonzero : value ≠ 0
  deriving DecidableEq

namespace ShortThreadId

/-- `ShortThreadId::new`. -/
def new (x : BitVec 12) : Option ShortThreadId :=
  if h : x ≠ 0 then some ⟨x, h⟩ else none

/-- The id of `UniqueThreadId::from_index(0)`. -/
def first : ShortThreadId := ⟨1, by decide⟩

/-- Position in `THREADS`. -/
def index (id : ShortThreadId) : Nat := id.value.toNat - 1

@[simp] theorem new_value (id : ShortThreadId) : new id.value = some id := by
  simp only [new, id.nonzero, ne_eq, not_false_eq_true, dif_pos]

@[simp] theorem new_zero : new 0 = none := by simp [new]

theorem ext_index {a b : ShortThreadId} (same : a.index = b.index) : a = b := by
  have positive : ∀ id : ShortThreadId, 0 < id.value.toNat := fun id =>
    Nat.pos_of_ne_zero fun zero => id.nonzero (BitVec.eq_of_toNat_eq zero)
  have left := positive a
  have right := positive b
  simp only [index] at same
  cases a
  cases b
  congr 1
  exact BitVec.eq_of_toNat_eq (by simp only at left right same; omega)

end ShortThreadId

/-- `BiasedCount = u20`. -/
abbrev BiasedCount := BitVec 20

/-- Decoded biased word. -/
structure BiasedWord where
  ownerId : Option ShortThreadId
  biasedCount : BiasedCount
  deriving DecidableEq

namespace BiasedWord

/-- `BiasedWord::UNOWNED`. -/
def unowned : BiasedWord := ⟨none, 0⟩

/-- `owner_id.map_or(0, |value| value.value().value())`. -/
def ownerBits (w : BiasedWord) : BitVec 12 :=
  match w.ownerId with
  | none => 0
  | some id => id.value

def toRaw (w : BiasedWord) : BitVec 32 :=
  (w.biasedCount.setWidth 32 <<< 12) ||| w.ownerBits.setWidth 32

def fromRaw (raw : BitVec 32) : BiasedWord where
  ownerId := ShortThreadId.new (raw.setWidth 12)
  biasedCount := (raw >>> 12).setWidth 20

theorem new_ownerBits (w : BiasedWord) : ShortThreadId.new w.ownerBits = w.ownerId := by
  cases w with
  | mk owner count =>
      cases owner <;> simp only [ownerBits, ShortThreadId.new_zero, ShortThreadId.new_value]

theorem ownerBits_fromRaw (raw : BitVec 32) : (fromRaw raw).ownerBits = raw.setWidth 12 := by
  by_cases zero : raw.setWidth 12 = 0
  · simp only [ownerBits, fromRaw, ShortThreadId.new, zero, ne_eq, not_true_eq_false, dif_neg,
      not_false_eq_true]
  · simp only [ownerBits, fromRaw, ShortThreadId.new, ne_eq, zero, not_false_eq_true, dif_pos]

@[simp] theorem fromRaw_toRaw (w : BiasedWord) : fromRaw w.toRaw = w := by
  have count : (w.toRaw >>> 12).setWidth 20 = w.biasedCount := by
    apply BitVec.eq_of_getLsbD_eq
    intro i inside
    simp [toRaw, inside, show 12 + i < 32 by omega]
  have owner : w.toRaw.setWidth 12 = w.ownerBits := by
    apply BitVec.eq_of_getLsbD_eq
    intro i inside
    simp [toRaw, inside]
  simp only [fromRaw, count, owner, new_ownerBits]

theorem toRaw_fromRaw (raw : BitVec 32) : (fromRaw raw).toRaw = raw := by
  apply BitVec.eq_of_getLsbD_eq
  intro i inside
  rw [toRaw, ownerBits_fromRaw]
  by_cases low : i < 12
  · simp [fromRaw, low, inside]
  · simp [fromRaw, low, inside, show i - 12 < 20 by omega, show 12 + (i - 12) = i by omega]

end BiasedWord

/-- `SharedCount(SharedCountInner)`: a signed field of `sharedBits` bits. -/
structure SharedCount (pw : PointerWidth) where
  bits : BitVec pw.sharedBits
  deriving DecidableEq

namespace SharedCount

variable {pw : PointerWidth}

/-- `SharedCount::value`. -/
def value (c : SharedCount pw) : Int := c.bits.toInt

/-- `SharedCount::MAX.value()`. -/
def maxValue (pw : PointerWidth) : Int := 2 ^ (pw.sharedBits - 1) - 1

/-- `SharedCountInner::MIN.value()`. -/
def minValue (pw : PointerWidth) : Int := -2 ^ (pw.sharedBits - 1)

/-- `SharedCount::to_bits`, zero-extended to a `usize`. -/
def toBits (c : SharedCount pw) : BitVec pw.usizeBits := c.bits.setWidth _

/-- `SharedCount::masked_new`. -/
def maskedNew (raw : BitVec pw.usizeBits) : SharedCount pw := ⟨raw.setWidth _⟩

/-- `SharedCount::new` at a literal that fits. -/
def ofInt (v : Int) : SharedCount pw := ⟨BitVec.ofInt _ v⟩

def checkedAdd (a b : SharedCount pw) : Option (SharedCount pw) :=
  if a.bits.saddOverflow b.bits then none else some ⟨a.bits + b.bits⟩

def checkedSub (a b : SharedCount pw) : Option (SharedCount pw) :=
  if a.bits.ssubOverflow b.bits then none else some ⟨a.bits - b.bits⟩

@[simp] theorem maskedNew_toBits (c : SharedCount pw) : maskedNew c.toBits = c := by
  cases c with
  | mk bits => simp [maskedNew, toBits]

theorem value_le (c : SharedCount pw) : c.value ≤ maxValue pw := by
  have bound : c.bits.toInt < 2 ^ (pw.sharedBits - 1) := by
    exact_mod_cast c.bits.toInt_lt
  simp only [value, maxValue]
  omega

theorem le_value (c : SharedCount pw) : minValue pw ≤ c.value := by
  have bound : -2 ^ (pw.sharedBits - 1) ≤ c.bits.toInt := by
    exact_mod_cast c.bits.le_toInt
  simpa only [value, minValue] using bound

theorem ext_value {a b : SharedCount pw} (same : a.value = b.value) : a = b := by
  cases a
  cases b
  exact congrArg mk (BitVec.eq_of_toInt_eq same)

theorem value_ofInt {v : Int} (low : minValue pw ≤ v) (high : v ≤ maxValue pw) :
    (ofInt v : SharedCount pw).value = v := by
  cases pw <;>
    simp only [value, ofInt, minValue, maxValue, PointerWidth.sharedBits, BitVec.toInt_ofInt] at * <;>
    rw [Int.bmod_eq_of_le] <;> omega

theorem checkedAdd_eq_some {a b c : SharedCount pw} (h : a.checkedAdd b = some c) :
    c.value = a.value + b.value := by
  simp only [checkedAdd] at h
  split at h
  · cases h
  · rename_i fits
    cases h
    exact BitVec.toInt_add_of_not_saddOverflow fits

theorem checkedSub_eq_some {a b c : SharedCount pw} (h : a.checkedSub b = some c) :
    c.value = a.value - b.value := by
  simp only [checkedSub] at h
  split at h
  · cases h
  · rename_i fits
    cases h
    exact BitVec.toInt_sub_of_not_ssubOverflow fits

theorem checkedAdd_eq_none {a b : SharedCount pw} (h : a.checkedAdd b = none) :
    maxValue pw < a.value + b.value ∨ a.value + b.value < minValue pw := by
  simp only [checkedAdd, ite_eq_left_iff, reduceCtorEq, imp_false, Decidable.not_not,
    BitVec.saddOverflow, Bool.or_eq_true, decide_eq_true_eq] at h
  simp only [value, maxValue, minValue]
  omega

theorem checkedSub_eq_none {a b : SharedCount pw} (h : a.checkedSub b = none) :
    maxValue pw < a.value - b.value ∨ a.value - b.value < minValue pw := by
  simp only [checkedSub, ite_eq_left_iff, reduceCtorEq, imp_false, Decidable.not_not,
    BitVec.ssubOverflow, Bool.or_eq_true, decide_eq_true_eq] at h
  simp only [value, maxValue, minValue]
  omega

/-- `SharedCount::new_unchecked(biased_count)`: every `u20` fits. -/
def ofBiased (b : BiasedCount) : SharedCount pw := ofInt b.toNat

@[simp] theorem value_ofBiased (b : BiasedCount) : (ofBiased b : SharedCount pw).value = b.toNat := by
  have bound := b.isLt
  apply value_ofInt <;> cases pw <;>
    simp only [minValue, maxValue, PointerWidth.sharedBits] <;> omega

@[simp] theorem value_one : (ofInt 1 : SharedCount pw).value = 1 := by
  apply value_ofInt <;> cases pw <;> decide

@[simp] theorem value_zero : (ofInt 0 : SharedCount pw).value = 0 := by
  apply value_ofInt <;> cases pw <;> decide

end SharedCount

/-- Decoded shared word. -/
structure SharedWord (pw : PointerWidth) where
  sharedCount : SharedCount pw
  merged : Bool
  queued : Bool
  deriving DecidableEq

namespace SharedWord

variable {pw : PointerWidth}

/-- `SharedWord::MERGED_BIT`. -/
def mergedBit (pw : PointerWidth) : BitVec pw.usizeBits := 1#_ <<< pw.sharedBits

/-- `SharedWord::QUEUED_BIT`. -/
def queuedBit (pw : PointerWidth) : BitVec pw.usizeBits := 1#_ <<< (pw.sharedBits + 1)

/-- `SharedWord::OVERFLOW_THRESHOLD.value()`. -/
def overflowThreshold (pw : PointerWidth) : Int := SharedCount.maxValue pw / 2

def toRaw (w : SharedWord pw) : BitVec pw.usizeBits :=
  w.sharedCount.toBits
    ||| ((BitVec.ofBool w.merged).setWidth _ <<< pw.sharedBits)
    ||| ((BitVec.ofBool w.queued).setWidth _ <<< (pw.sharedBits + 1))

def fromRaw (raw : BitVec pw.usizeBits) : SharedWord pw where
  sharedCount := .maskedNew raw
  merged := raw &&& mergedBit pw != 0
  queued := raw &&& queuedBit pw != 0

theorem and_bit_ne_zero {w : Nat} (raw : BitVec w) (i : Nat) (inside : i < w) :
    (raw &&& (1#w <<< i) != 0) = raw.getLsbD i := by
  rw [← BitVec.twoPow_eq, BitVec.and_twoPow]
  have bit : BitVec.twoPow w i ≠ 0#w := by
    intro zero
    have := congrArg (·.getLsbD i) zero
    simp [inside] at this
  cases raw.getLsbD i <;> simp [bit]

theorem fromRaw_merged (raw : BitVec pw.usizeBits) :
    (fromRaw raw).merged = raw.getLsbD pw.sharedBits :=
  and_bit_ne_zero raw _ (by simp)

theorem fromRaw_queued (raw : BitVec pw.usizeBits) :
    (fromRaw raw).queued = raw.getLsbD (pw.sharedBits + 1) :=
  and_bit_ne_zero raw _ (by simp)

/-- The three fields occupy disjoint bits. -/
theorem toRaw_getLsbD (w : SharedWord pw) (i : Nat) :
    w.toRaw.getLsbD i =
      if i < pw.sharedBits then w.sharedCount.bits.getLsbD i
      else if i = pw.sharedBits then w.merged
      else if i = pw.sharedBits + 1 then w.queued
      else false := by
  by_cases low : i < pw.sharedBits
  · simp [toRaw, SharedCount.toBits, low, show i < pw.sharedBits + 2 by omega,
      show i < pw.sharedBits + 1 by omega]
  · by_cases atMerged : i = pw.sharedBits
    · subst atMerged
      simp [toRaw, SharedCount.toBits]
    · by_cases atQueued : i = pw.sharedBits + 1
      · subst atQueued
        simp [toRaw, SharedCount.toBits]
      · have outside : pw.usizeBits ≤ i := by simp only [PointerWidth.usizeBits]; omega
        rw [BitVec.getLsbD_of_ge _ _ outside]
        simp only [low, atMerged, atQueued, if_false]

@[simp] theorem fromRaw_toRaw (w : SharedWord pw) : fromRaw w.toRaw = w := by
  have merged : (fromRaw w.toRaw).merged = w.merged := by
    rw [fromRaw_merged, toRaw_getLsbD, if_neg (Nat.lt_irrefl _), if_pos rfl]
  have queued : (fromRaw w.toRaw).queued = w.queued := by
    rw [fromRaw_queued, toRaw_getLsbD, if_neg (by omega), if_neg (by omega), if_pos rfl]
  have count : (fromRaw w.toRaw).sharedCount = w.sharedCount := by
    have bits : w.toRaw.setWidth pw.sharedBits = w.sharedCount.bits := by
      apply BitVec.eq_of_getLsbD_eq
      intro i inside
      simp [toRaw_getLsbD, inside]
    simp only [fromRaw, SharedCount.maskedNew, bits]
  cases w
  cases eq : fromRaw (toRaw _)
  simp_all

theorem toRaw_fromRaw (raw : BitVec pw.usizeBits) : (fromRaw raw).toRaw = raw := by
  apply BitVec.eq_of_getLsbD_eq
  intro i inside
  rw [toRaw_getLsbD, fromRaw_merged, fromRaw_queued]
  split
  · simp [fromRaw, SharedCount.maskedNew, *]
  · split
    · subst_vars; rfl
    · split
      · subst_vars; rfl
      · simp only [PointerWidth.usizeBits] at inside; omega

theorem toRaw_injective {a b : SharedWord pw} (same : a.toRaw = b.toRaw) : a = b := by
  rw [← fromRaw_toRaw a, same, fromRaw_toRaw]

/-- `fetch_or(MERGED_BIT)` sets the merged flag and nothing else. -/
theorem toRaw_or_mergedBit (w : SharedWord pw) :
    w.toRaw ||| mergedBit pw = { w with merged := true }.toRaw := by
  apply BitVec.eq_of_getLsbD_eq
  intro i inside
  rw [BitVec.getLsbD_or, toRaw_getLsbD, toRaw_getLsbD, mergedBit, ← BitVec.twoPow_eq,
    BitVec.getLsbD_twoPow]
  by_cases atMerged : pw.sharedBits = i
  · subst atMerged
    simp
  · simp [atMerged, Ne.symm atMerged]

/-- The same on a raw word, which is what the atomic operation sees. -/
theorem fromRaw_or_mergedBit (raw : BitVec pw.usizeBits) :
    fromRaw (raw ||| mergedBit pw) = { fromRaw raw with merged := true } := by
  have encoded := toRaw_or_mergedBit (fromRaw raw)
  rw [toRaw_fromRaw] at encoded
  rw [encoded, fromRaw_toRaw]

/-- Flags as the number they stand for above the count field. -/
def flagsNat (w : SharedWord pw) : Nat := w.merged.toNat + 2 * w.queued.toNat

theorem flagsNat_lt (w : SharedWord pw) : w.flagsNat < 4 := by
  rw [flagsNat]
  cases w.merged <;> cases w.queued <;> decide

theorem flagsNat_testBit (w : SharedWord pw) (i : Nat) :
    w.flagsNat.testBit i = if i = 0 then w.merged else if i = 1 then w.queued else false := by
  obtain rfl | rfl | ⟨j, rfl⟩ : i = 0 ∨ i = 1 ∨ ∃ j, i = j + 2 := by
    match i with
    | 0 => exact .inl rfl
    | 1 => exact .inr (.inl rfl)
    | j + 2 => exact .inr (.inr ⟨j, rfl⟩)
  · rw [flagsNat]
    cases w.merged <;> cases w.queued <;> rfl
  · rw [flagsNat]
    cases w.merged <;> cases w.queued <;> rfl
  · have small : w.flagsNat < 2 ^ (j + 2) := by
      have low := w.flagsNat_lt
      have grow : 2 ^ 2 ≤ 2 ^ (j + 2) := Nat.pow_le_pow_right (by omega) (by omega)
      omega
    rw [Nat.testBit_lt_two_pow small]
    simp

/-- Encoding as a sum: carries out of the count field land in the flags. -/
theorem toRaw_toNat (w : SharedWord pw) :
    w.toRaw.toNat = 2 ^ pw.sharedBits * w.flagsNat + w.sharedCount.bits.toNat := by
  apply Nat.eq_of_testBit_eq
  intro i
  rw [BitVec.testBit_toNat, toRaw_getLsbD, Nat.testBit_two_pow_mul_add _ w.sharedCount.bits.isLt,
    flagsNat_testBit, BitVec.testBit_toNat]
  split
  · rfl
  · congr 1
    · simp only [eq_iff_iff]; omega
    · congr 1
      simp only [eq_iff_iff]; omega

end SharedWord

namespace SharedCount

variable {pw : PointerWidth}

/-- One more, wrapping in the field. -/
def wrappingSucc (c : SharedCount pw) : SharedCount pw := ⟨c.bits + 1#_⟩

theorem value_wrappingSucc {c : SharedCount pw} (below : c.value < maxValue pw) :
    c.wrappingSucc.value = c.value + 1 := by
  have one : (BitVec.ofNat pw.sharedBits 1).toInt = 1 := by cases pw <;> decide
  have low := c.le_value
  have fits : ¬ c.bits.saddOverflow 1#_ := by
    simp only [BitVec.saddOverflow, one, Bool.or_eq_true, decide_eq_true_eq]
    simp only [value, maxValue, minValue] at below low
    omega
  simp only [value, wrappingSucc, BitVec.toInt_add_of_not_saddOverflow fits, one]

theorem value_eq_neg_one_iff (c : SharedCount pw) :
    c.value = -1 ↔ c.bits.toNat = 2 ^ pw.sharedBits - 1 := by
  have bound := c.bits.isLt
  rw [value, BitVec.toInt_eq_toNat_cond]
  have large : 2 ≤ 2 ^ pw.sharedBits := by cases pw <;> decide
  by_cases half : 2 * c.bits.toNat < 2 ^ pw.sharedBits
  · rw [if_pos half]
    omega
  · rw [if_neg half]
    omega

theorem wrappingSucc_toNat {c : SharedCount pw} (noCarry : c.value ≠ -1) :
    c.wrappingSucc.bits.toNat = c.bits.toNat + 1 := by
  have bound := c.bits.isLt
  rw [ne_eq, value_eq_neg_one_iff] at noCarry
  rw [wrappingSucc, BitVec.toNat_add]
  cases pw <;> simp only [PointerWidth.sharedBits, BitVec.toNat_ofNat] at * <;> omega

end SharedCount

namespace SharedWord

variable {pw : PointerWidth}

/-- The effect of `fetch_add(1)` on a word whose count field does not carry out. -/
theorem toRaw_add_one {w : SharedWord pw} (noCarry : w.sharedCount.value ≠ -1) :
    w.toRaw + 1#_ = { w with sharedCount := w.sharedCount.wrappingSucc }.toRaw := by
  apply BitVec.eq_of_toNat_eq
  have succ := SharedCount.wrappingSucc_toNat noCarry
  have bound := w.sharedCount.wrappingSucc.bits.isLt
  have flags := w.flagsNat_lt
  rw [BitVec.toNat_add, toRaw_toNat, toRaw_toNat]
  simp only [flagsNat] at *
  rw [succ] at bound ⊢
  cases pw <;>
    simp only [PointerWidth.usizeBits, PointerWidth.sharedBits, BitVec.toNat_ofNat] at * <;> omega

/-- At `-1` the count field is all ones and `fetch_add(1)` carries into the flags. -/
theorem toRaw_add_one_carry {w : SharedWord pw} (carry : w.sharedCount.value = -1) :
    w.toRaw + 1#_ =
      SharedWord.toRaw ⟨.ofInt 0, !w.merged, w.queued ^^ w.merged⟩ := by
  apply BitVec.eq_of_toNat_eq
  rw [SharedCount.value_eq_neg_one_iff] at carry
  have zero : ((.ofInt 0 : SharedCount pw)).bits.toNat = 0 := by cases pw <;> decide
  rw [BitVec.toNat_add, toRaw_toNat, toRaw_toNat, carry, zero]
  simp only [flagsNat]
  cases w.merged <;> cases w.queued <;> cases pw <;> rfl

end SharedWord

/-- Both codecs are bijections between the decoded and the raw words, at either
pointer width, and `fetch_or(MERGED_BIT)` acts on decoded words as a field update. -/
theorem packed_words_codec (pw : PointerWidth) :
    (∀ w : BiasedWord, BiasedWord.fromRaw w.toRaw = w) ∧
    (∀ raw : BitVec 32, (BiasedWord.fromRaw raw).toRaw = raw) ∧
    (∀ w : SharedWord pw, SharedWord.fromRaw w.toRaw = w) ∧
    (∀ raw : BitVec pw.usizeBits, (SharedWord.fromRaw raw).toRaw = raw) ∧
    (∀ raw : BitVec pw.usizeBits,
      SharedWord.fromRaw (raw ||| SharedWord.mergedBit pw) =
        { SharedWord.fromRaw raw with merged := true }) := by
  refine ⟨?biased, ?biasedRaw, ?shared, ?sharedRaw, ?fetchOr⟩
  case biased => exact BiasedWord.fromRaw_toRaw
  case biasedRaw => exact BiasedWord.toRaw_fromRaw
  case shared => exact SharedWord.fromRaw_toRaw
  case sharedRaw => exact SharedWord.toRaw_fromRaw
  case fetchOr => exact SharedWord.fromRaw_or_mergedBit

end BiasedRc
