import BiasedRc.Layout

/-! # Pointers to values of any type

A reference is the address of its value and the metadata that the type of the value
asks for. Whatever is needed to release an object is computed from these two. The
merge queue keeps objects of all types, so its entries hold the metadata squeezed
into one word and a function that knows the type.
-/

namespace BiasedRc

open Align

/-- `T: ?Sized + SupportedPointee`, by what its pointers carry. -/
inductive Pointee (pw : PointerWidth) where
  | sized (layout : Layout pw)
  /-- `[T]`, and `str` and its relatives as slices of bytes. -/
  | slice (elem : Layout pw)
  /-- `dyn Trait`, whose vtables say what the layout is. -/
  | traitObject (layoutOf : BitVec pw.usizeBits → Layout pw)

namespace Pointee

variable {pw : PointerWidth}

/-- `Pointee::Metadata`. -/
def Metadata : Pointee pw → Type
  | .sized _ => Unit
  | .slice _ | .traitObject _ => BitVec pw.usizeBits

/-- `SupportedMetadata::to_context`. -/
def toContext : (T : Pointee pw) → T.Metadata → BitVec pw.usizeBits
  | .sized _, _ => 0
  | .slice _, len => len
  | .traitObject _, vtable => vtable

/-- `SupportedMetadata::from_context`. -/
def fromContext : (T : Pointee pw) → BitVec pw.usizeBits → T.Metadata
  | .sized _, _ => ()
  | .slice _, ctx | .traitObject _, ctx => ctx

theorem fromContext_toContext (T : Pointee pw) (metadata : T.Metadata) :
    T.fromContext (T.toContext metadata) = metadata := by
  cases T <;> rfl

/-- `Layout::for_value`; no value has a layout that overflows. -/
def layoutForValue : (T : Pointee pw) → T.Metadata → Option (Layout pw)
  | .sized layout, _ => some layout
  | .slice elem, len => Layout.array elem len.toNat
  | .traitObject layoutOf, vtable => some (layoutOf vtable)

/-- `SupportedWeakPointee::layout_for_ptr`. -/
def layoutForPtr : (T : Pointee pw) → T.Metadata → Option (Layout pw)
  | .sized layout, _ => some layout
  | .slice elem, len => Layout.array elem len.toNat
  | .traitObject layoutOf, vtable => some (layoutOf vtable)

theorem layoutForPtr_eq (T : Pointee pw) (metadata : T.Metadata) :
    T.layoutForPtr metadata = T.layoutForValue metadata := by
  cases T <;> rfl

/-- A pointer to a `T` is also one to a `U`, with other metadata. -/
inductive Unsizes : (T : Pointee pw) → T.Metadata → (U : Pointee pw) → U.Metadata → Prop where
  | array {elem layout : Layout pw} {len : BitVec pw.usizeBits}
      (whole : Layout.array elem len.toNat = some layout) :
      Unsizes (.sized layout) () (.slice elem) len
  | traitObject {layout : Layout pw} {layoutOf : BitVec pw.usizeBits → Layout pw}
      {vtable : BitVec pw.usizeBits} (implements : layoutOf vtable = layout) :
      Unsizes (.sized layout) () (.traitObject layoutOf) vtable
  | upcast {layoutOf layoutOf' : BitVec pw.usizeBits → Layout pw} {vtable vtable' : BitVec pw.usizeBits}
      (same : layoutOf' vtable' = layoutOf vtable) :
      Unsizes (.traitObject layoutOf) vtable (.traitObject layoutOf') vtable'

theorem Unsizes.layoutForValue {T U : Pointee pw} {metadata : T.Metadata} {metadata' : U.Metadata}
    (unsizes : Unsizes T metadata U metadata') : U.layoutForValue metadata' = T.layoutForValue metadata := by
  cases unsizes with
  | array whole => exact whole
  | traitObject implements => exact congrArg some implements
  | upcast same => exact congrArg some same

end Pointee

namespace Layout

variable {pw : PointerWidth}

/-- `Layout::pad_to_align`. -/
def padToAlign (l : Layout pw) : Option (Layout pw) :=
  fromSizeAlign pw (roundUp l.size l.align) l.align l.powerOfTwo

theorem isPowerOfTwo_four : Nat.isPowerOfTwo 4 := ⟨2, rfl⟩

theorem isPowerOfTwo_eight : Nat.isPowerOfTwo 8 := ⟨3, rfl⟩

theorem four_fits (pw : PointerWidth) : roundUp 4 4 ≤ isizeMax pw := by cases pw <;> decide

theorem eight_fits : roundUp 8 8 ≤ isizeMax .w64 := by decide

/-- `Layout::new::<u32>()`. -/
def u32 (pw : PointerWidth) : Layout pw := ⟨4, 4, isPowerOfTwo_four, four_fits pw⟩

/-- `Layout::new::<usize>()`. -/
def usize : (pw : PointerWidth) → Layout pw
  | .w32 => ⟨4, 4, isPowerOfTwo_four, four_fits .w32⟩
  | .w64 => ⟨8, 8, isPowerOfTwo_eight, eight_fits⟩

/-- `Layout::new::<RawBrcHeader>()`. -/
def rawBrcHeader (pw : PointerWidth) : Option (Layout pw) := do
  let (words, _) ← (usize pw).extend (u32 pw)
  words.padToAlign

/-- `Layout::new::<BrcHeader<A>>()`, with `alloc` the layout of `A`. -/
def brcHeader (alloc : Layout pw) : Option (Layout pw) := do
  let (counts, _) ← (← rawBrcHeader pw).extend (u32 pw)
  let (fields, _) ← counts.extend alloc
  fields.padToAlign

theorem le_of_extend {l next : Layout pw} {r : Layout pw × Nat} (extended : l.extend next = some r) :
    l.size ≤ r.1.size := by
  simp only [extend, Option.map_eq_some_iff] at extended
  obtain ⟨full, made, rfl⟩ := extended
  rw [(fromSizeAlign_eq_some made).1]
  exact (le_roundUp next.align_pos).trans (Nat.le_add_right ..)

theorem le_of_padToAlign {l padded : Layout pw} (made : l.padToAlign = some padded) :
    l.size ≤ padded.size := by
  rw [(fromSizeAlign_eq_some made).1]
  exact le_roundUp l.align_pos

/-- Even without an allocator to store, a header has a size. -/
theorem brcHeader_size_pos {alloc header : Layout pw} (made : brcHeader alloc = some header) :
    0 < header.size := by
  simp only [brcHeader, rawBrcHeader, Option.bind_eq_bind, Option.bind_eq_some_iff] at made
  obtain ⟨raw, ⟨words, inner, padded⟩, counts, outer, fields, stored, done⟩ := made
  have word : 0 < (usize pw).size := by cases pw <;> decide
  have first := le_of_extend inner
  have second := le_of_padToAlign padded
  have third := le_of_extend outer
  have fourth := le_of_extend stored
  have last := le_of_padToAlign done
  omega

end Layout

/-- The address that `Weak::new` uses. -/
def reservedAddress (pw : PointerWidth) : Int := 2 ^ pw.usizeBits - 1

/-- `Brc<T, A>` or `Weak<T, A>`: a pointer to the value, and the types it is read with. -/
structure Reference (pw : PointerWidth) where
  /-- The layout of `A`. -/
  alloc : Layout pw
  pointee : Pointee pw
  address : Int
  metadata : pointee.Metadata

/-- `ErasedDropInfo`. Its function is left with the memory that it gives back. -/
structure ErasedDropInfo (pw : PointerWidth) where
  valueOffset : Int
  erasedCtx : BitVec pw.usizeBits
  erasedFunc : Int → BitVec pw.usizeBits → Int → Option (Block pw)

/-- `QueuedObject`. -/
structure QueuedObject (pw : PointerWidth) where
  headerPtr : Int
  drop : ErasedDropInfo pw

/-- `ErasedDropInfo::dealloc` of an entry. -/
def QueuedObject.dealloc {pw : PointerWidth} (entry : QueuedObject pw) : Option (Block pw) :=
  entry.drop.erasedFunc entry.headerPtr entry.drop.erasedCtx entry.drop.valueOffset

/-- `DropContext::erased_dealloc`, down to what `drop_weak` hands to the allocator. -/
def erasedDealloc {pw : PointerWidth} (alloc : Layout pw) (T : Pointee pw) (headerPtr : Int)
    (ctx : BitVec pw.usizeBits) (valueOffset : Int) : Option (Block pw) := do
  let layoutInfo ← LayoutInfo.new (← Layout.brcHeader alloc) (← T.layoutForValue (T.fromContext ctx))
  -- `debug_assert_eq!`
  guard (layoutInfo.valueOffset = valueOffset)
  return { address := headerPtr, layout := layoutInfo.fullLayout }

namespace Reference

variable {pw : PointerWidth}

/-- `Brc::layout`. -/
def layout (r : Reference pw) : Option (LayoutInfo pw) := do
  LayoutInfo.new (← Layout.brcHeader r.alloc) (← r.pointee.layoutForValue r.metadata)

/-- `Brc::header`. -/
def header (r : Reference pw) : Option Int := return LayoutInfo.headerPtrFor r.address (← r.layout)

/-- `DropInfo::dealloc` of the context that `drop_no_collect_in_place` makes. -/
def dealloc (r : Reference pw) : Option (Block pw) := do
  erasedDealloc r.alloc r.pointee (← r.header) (r.pointee.toContext r.metadata) (← r.layout).valueOffset

/-- `DropInfo::erase`, and the entry that is queued with it. -/
def erase (r : Reference pw) : Option (QueuedObject pw) :=
  return {
    headerPtr := ← r.header
    drop := {
      valueOffset := (← r.layout).valueOffset
      erasedCtx := r.pointee.toContext r.metadata
      erasedFunc := erasedDealloc r.alloc r.pointee } }

/-- `WeakReal::layout_info`. -/
def weakLayoutInfo (r : Reference pw) : Option (LayoutInfo pw) := do
  LayoutInfo.new (← Layout.brcHeader r.alloc) (← r.pointee.layoutForPtr r.metadata)

/-- `Weak::drop` of the last reference. -/
def dropWeak (r : Reference pw) : Option (Block pw) := do
  let layoutInfo ← r.weakLayoutInfo
  return { address := LayoutInfo.headerPtrFor r.address layoutInfo, layout := layoutInfo.fullLayout }

/-- `Weak::real`. -/
def isReal (r : Reference pw) : Bool := r.address ≠ reservedAddress pw

/-- `Brc::ptr_eq`, `Weak::ptr_eq`. -/
def ptrEq (r r' : Reference pw) : Bool := r.address = r'.address

end Reference

end BiasedRc
