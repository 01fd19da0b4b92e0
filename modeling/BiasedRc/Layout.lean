import BiasedRc.Lib.Align
import BiasedRc.Words

/-! # Where the header and the value lie

An allocation holds a header and, after some padding, the value. Only the address
of the value is kept: the header is found again, and deallocated again, from the
layout of the value. `Layout` follows the documentation of the standard library.
-/

namespace BiasedRc

open Align

/-- `usize::MAX`. -/
def usizeMax (pw : PointerWidth) : Nat := 2 ^ pw.usizeBits - 1

/-- `isize::MAX`. -/
def isizeMax (pw : PointerWidth) : Nat := 2 ^ (pw.usizeBits - 1) - 1

/-- `core::alloc::Layout`. -/
structure Layout (pw : PointerWidth) where
  size : Nat
  align : Nat
  powerOfTwo : align.isPowerOfTwo
  fits : roundUp size align ≤ isizeMax pw

namespace Layout

variable {pw : PointerWidth}

theorem align_pos (l : Layout pw) : 0 < l.align := Nat.pos_of_isPowerOfTwo l.powerOfTwo

/-- `Layout::from_size_align`. -/
def fromSizeAlign (pw : PointerWidth) (size align : Nat) (powerOfTwo : align.isPowerOfTwo) :
    Option (Layout pw) :=
  if fits : roundUp size align ≤ isizeMax pw then some ⟨size, align, powerOfTwo, fits⟩ else none

/-- `Layout::align_to`. -/
def alignTo (l : Layout pw) (align : Nat) (powerOfTwo : align.isPowerOfTwo) : Option (Layout pw) :=
  fromSizeAlign pw l.size (max l.align align) (isPowerOfTwo_max l.powerOfTwo powerOfTwo)

/-- `Layout::array`, with `elem` the layout of an element. -/
def array (elem : Layout pw) (len : Nat) : Option (Layout pw) :=
  fromSizeAlign pw (elem.size * len) elem.align elem.powerOfTwo

theorem array_zero (elem : Layout pw) : (array elem 0).isSome := by
  have empty : roundUp (elem.size * 0) elem.align = 0 := by
    simp only [roundUp, Nat.mul_zero, Nat.zero_add]
    rw [Nat.div_eq_of_lt (Nat.sub_one_lt_of_lt elem.align_pos), Nat.zero_mul]
  simp only [array, fromSizeAlign, empty, Nat.zero_le, ↓reduceDIte, Option.isSome_some]

theorem array_of_le {elem : Layout pw} {len cap : Nat} (made : (array elem cap).isSome)
    (le : len ≤ cap) : (array elem len).isSome := by
  simp only [array, fromSizeAlign, Option.isSome_dite] at made ⊢
  exact (roundUp_le_roundUp (Nat.mul_le_mul_left _ le)).trans made

/-- `Layout::extend`: the layout of `l` followed by `next`, and the offset of `next`. -/
def extend (l next : Layout pw) : Option (Layout pw × Nat) :=
  let offset := roundUp l.size next.align
  (fromSizeAlign pw (offset + next.size) (max l.align next.align)
    (isPowerOfTwo_max l.powerOfTwo next.powerOfTwo)).map fun full => (full, offset)

theorem fromSizeAlign_eq_none {size align : Nat} {powerOfTwo} :
    fromSizeAlign pw size align powerOfTwo = none ↔ isizeMax pw < roundUp size align := by
  simp only [fromSizeAlign, dite_eq_right_iff, reduceCtorEq, imp_false, Nat.not_le]

theorem fromSizeAlign_eq_some {size align : Nat} {powerOfTwo} {l : Layout pw}
    (h : fromSizeAlign pw size align powerOfTwo = some l) : l.size = size ∧ l.align = align := by
  simp only [fromSizeAlign, Option.dite_none_right_eq_some, Option.some.injEq] at h
  obtain ⟨_, rfl⟩ := h
  exact ⟨rfl, rfl⟩

end Layout

/-- `value as isize`. -/
def asIsize (pw : PointerWidth) (value : Nat) : Int := (BitVec.ofNat pw.usizeBits value).toInt

theorem asIsize_of_le {pw : PointerWidth} {value : Nat} (fits : value ≤ isizeMax pw) :
    asIsize pw value = value := by
  rw [asIsize, BitVec.toInt_eq_toNat_cond, BitVec.toNat_ofNat]
  cases pw <;> simp only [isizeMax, PointerWidth.usizeBits, PointerWidth.sharedBits] at fits ⊢ <;> omega

/-- `LayoutInfo<A>`. -/
structure LayoutInfo (pw : PointerWidth) where
  valueOffset : Int
  fullLayout : Layout pw

/-- Memory handed out by an allocator, or handed back to one. -/
structure Block (pw : PointerWidth) where
  address : Int
  layout : Layout pw

namespace LayoutInfo

variable {pw : PointerWidth}

/-- `MIN_VALUE_ALIGNMENT`. -/
def minValueAlignment : Nat := 2

theorem isPowerOfTwo_minValueAlignment : minValueAlignment.isPowerOfTwo := ⟨1, rfl⟩

/-- `LayoutInfo::new`, given `Layout::new::<BrcHeader<A>>()`. -/
def new (header layout : Layout pw) : Option (LayoutInfo pw) := do
  let aligned ← layout.alignTo minValueAlignment isPowerOfTwo_minValueAlignment
  let (fullLayout, valueOffset) ← header.extend aligned
  return { valueOffset := asIsize pw valueOffset, fullLayout }

def headerOffset (info : LayoutInfo pw) : Int := 0 - info.valueOffset

/-- `Brc::header_ptr_for`, `WeakReal::header_ptr`. -/
def headerPtrFor (value : Int) (info : LayoutInfo pw) : Int := value + info.headerOffset

/-- What `drop_weak` gives back for the value at an address, from the layout of the value. -/
def release (header layout : Layout pw) (value : Int) : Option (Block pw) := do
  let info ← new header layout
  return { address := headerPtrFor value info, layout := info.fullLayout }

/-- Rounding the value or the whole allocation to its alignment leaves `isize`. -/
def Overflows (header layout : Layout pw) : Prop :=
  let align := max layout.align minValueAlignment
  isizeMax pw < roundUp layout.size align ∨
    isizeMax pw < roundUp (roundUp header.size align + layout.size) (max header.align align)

/-- An allocation at an address, and the value in it. -/
structure Geometry (header layout : Layout pw) (info : LayoutInfo pw) (address : Nat) : Prop where
  headerAligned : header.align ∣ address
  valueAligned : (layout.align : Int) ∣ address + info.valueOffset
  /-- The header ends before the value begins, and the value before the allocation ends. -/
  disjoint : (address : Int) + header.size ≤ address + info.valueOffset
  inside : (address : Int) + info.valueOffset + layout.size ≤ address + info.fullLayout.size
  offset : info.valueOffset ≤ isizeMax pw
  headerFound : headerPtrFor (address + info.valueOffset) info = address
  even : (2 : Int) ∣ address + info.valueOffset
  /-- `Weak::new` uses `usize::MAX`. -/
  notReserved : (address : Int) + info.valueOffset ≠ 2 ^ pw.usizeBits - 1
  released : release header layout (address + info.valueOffset) = some ⟨address, info.fullLayout⟩

/-- The alignment the value is given. -/
def valueAlign (layout : Layout pw) : Nat := max layout.align minValueAlignment

theorem isPowerOfTwo_valueAlign (layout : Layout pw) : (valueAlign layout).isPowerOfTwo :=
  isPowerOfTwo_max layout.powerOfTwo isPowerOfTwo_minValueAlignment

theorem new_of_aligned {header layout : Layout pw} {aligned : Layout pw}
    (h : layout.alignTo minValueAlignment isPowerOfTwo_minValueAlignment = some aligned) :
    new header layout = (Layout.fromSizeAlign pw
      (roundUp header.size (valueAlign layout) + layout.size) (max header.align (valueAlign layout))
      (isPowerOfTwo_max header.powerOfTwo (isPowerOfTwo_valueAlign layout))).map fun full =>
        ⟨asIsize pw (roundUp header.size (valueAlign layout)), full⟩ := by
  obtain ⟨size, align⟩ := Layout.fromSizeAlign_eq_some h
  simp only [new, h, Layout.extend, bind, Option.bind_some, pure, size, align]
  rw [Option.bind_map, Option.map_eq_bind]
  rfl

theorem new_eq_none_iff (header layout : Layout pw) :
    new header layout = none ↔ Overflows header layout := by
  cases aligned : layout.alignTo minValueAlignment isPowerOfTwo_minValueAlignment with
  | none =>
      have exceeds := Layout.fromSizeAlign_eq_none.mp aligned
      simp only [new, aligned, bind, Option.bind_none, true_iff]
      exact .inl exceeds
  | some value =>
      have fits : ¬ isizeMax pw < roundUp layout.size (valueAlign layout) := by
        intro exceeds
        have failed : layout.alignTo minValueAlignment isPowerOfTwo_minValueAlignment = none :=
          Layout.fromSizeAlign_eq_none.mpr exceeds
        exact Option.some_ne_none value (aligned.symm.trans failed)
      rw [new_of_aligned aligned, Option.map_eq_none_iff, Layout.fromSizeAlign_eq_none]
      exact (or_iff_right fits).symm

theorem new_eq_some {header layout : Layout pw} {info : LayoutInfo pw}
    (h : new header layout = some info) :
    info.valueOffset = roundUp header.size (valueAlign layout) ∧
      info.valueOffset ≤ isizeMax pw ∧
      info.fullLayout.size = roundUp header.size (valueAlign layout) + layout.size ∧
      info.fullLayout.align = max header.align (valueAlign layout) := by
  cases aligned : layout.alignTo minValueAlignment isPowerOfTwo_minValueAlignment with
  | none => simp [new, aligned] at h
  | some value =>
      rw [new_of_aligned aligned, Option.map_eq_some_iff] at h
      obtain ⟨full, made, rfl⟩ := h
      obtain ⟨size, align⟩ := Layout.fromSizeAlign_eq_some made
      have room := (le_roundUp full.align_pos).trans full.fits
      have fits : roundUp header.size (valueAlign layout) ≤ isizeMax pw := by omega
      simp only [asIsize_of_le fits]
      exact ⟨trivial, by exact_mod_cast fits, size, align⟩

/-- The geometry of every allocation that is made. -/
theorem geometry {header layout : Layout pw} {info : LayoutInfo pw}
    (h : new header layout = some info) {address : Nat}
    (aligned : info.fullLayout.align ∣ address) : Geometry header layout info address := by
  obtain ⟨offset, fits, size, align⟩ := new_eq_some h
  rw [align] at aligned
  have powerOfTwo := isPowerOfTwo_valueAlign layout
  have valueAligned : (valueAlign layout : Int) ∣ address + info.valueOffset := by
    rw [offset]
    have base := (dvd_max_right header.powerOfTwo powerOfTwo).trans aligned
    exact_mod_cast (Nat.dvd_add_right base).mpr dvd_roundUp
  have even : (2 : Int) ∣ address + info.valueOffset := by
    have minimal : (2 : Int) ∣ valueAlign layout := by
      exact_mod_cast dvd_max_right layout.powerOfTwo isPowerOfTwo_minValueAlignment
    exact minimal.trans valueAligned
  have found : headerPtrFor (address + info.valueOffset) info = address := by
    simp only [headerPtrFor, headerOffset]
    omega
  have padded : header.size ≤ roundUp header.size (valueAlign layout) :=
    le_roundUp (Nat.pos_of_isPowerOfTwo powerOfTwo)
  exact {
    headerAligned := (dvd_max_left header.powerOfTwo powerOfTwo).trans aligned
    valueAligned := by
      have divides : (layout.align : Int) ∣ valueAlign layout := by
        exact_mod_cast dvd_max_left layout.powerOfTwo isPowerOfTwo_minValueAlignment
      exact divides.trans valueAligned
    disjoint := by omega
    inside := by omega
    offset := fits
    headerFound := found
    even := even
    notReserved := by cases pw <;> simp only [PointerWidth.usizeBits, PointerWidth.sharedBits] <;> omega
    released := by simp [release, h, found] }

/-- When `LayoutInfo::new` fails, and what it yields when it does not. -/
theorem new_geometry (header layout : Layout pw) :
    (new header layout = none ↔ Overflows header layout) ∧
      ∀ info, new header layout = some info → ∀ address : Nat,
        info.fullLayout.align ∣ address → Geometry header layout info address :=
  ⟨new_eq_none_iff header layout, fun _ made _ aligned => geometry made aligned⟩

/-- A `str` of three bytes behind the header of a zero-sized allocator. -/
theorem new_geometry_of_str : ∃ info : LayoutInfo .w64,
    info.valueOffset = 24 ∧ info.fullLayout.size = 27 ∧
      Geometry ⟨24, 8, ⟨3, rfl⟩, by decide⟩ ⟨3, 1, ⟨0, rfl⟩, by decide⟩ info 4096 := by
  have made := (new_geometry (⟨24, 8, ⟨3, rfl⟩, by decide⟩ : Layout .w64) ⟨3, 1, ⟨0, rfl⟩, by decide⟩).2
  exact ⟨⟨24, ⟨27, 8, ⟨3, rfl⟩, by decide⟩⟩, rfl, rfl, made _ rfl 4096 (by decide)⟩

end LayoutInfo

end BiasedRc
