import BiasedRc.Allocating

/-! # Moving a value out of a box

`From<Box<T>>` copies the bytes of the value into a new object and gives the box
up. The value has one owner at a time, so a destructor may run once: when the last
handle is released.
-/

namespace BiasedRc

open Unwind

/-- What dropping a value does. `nothing` also stands for a slice without elements. -/
inductive Glue where
  | nothing
  | returns
  | panics
  deriving DecidableEq, Repr

/-- A value in a box. -/
structure Boxed (pw : PointerWidth) where
  layout : Layout pw
  bytes : List (BitVec 8)
  sized : bytes.length = layout.size
  glue : Glue

/-- How often the destructor of the value ran, and how often its box was freed. -/
structure BoxState where
  destructions : Nat
  boxFreed : Nat

/-- A box on its way into an object. -/
abbrev Unboxing (pw : PointerWidth) := Target pw (BitVec 8) BoxState

namespace Boxed

variable {pw : PointerWidth} (b : Boxed pw)

/-- A box of a zero-sized value owns no memory. -/
def allocations : Nat := if b.layout.size = 0 then 0 else 1

/-- How often the destructor has to run. -/
def destructors : Nat := if b.glue = .nothing then 0 else 1

/-- `drop_in_place` of the value, wherever its bytes lie. -/
def dropValue : Code (Unboxing pw) PUnit :=
  match b.glue with
  | .nothing => pure ⟨⟩
  | .returns =>
      modify fun t => t.setSource { t.source with destructions := t.source.destructions + 1 }
  | .panics => do
      modify fun t => t.setSource { t.source with destructions := t.source.destructions + 1 }
      throw .unwinding

def freeBox : Code (Unboxing pw) PUnit :=
  modify fun t => t.setSource { t.source with boxFreed := t.source.boxFreed + b.allocations }

/-- The drop of a `Box<T>`. -/
def dropBox : Code (Unboxing pw) PUnit := do
  onUnwind b.freeBox b.dropValue
  b.freeBox

/-- `copy_from_nonoverlapping` of as many bytes as the layout says. -/
def copyBytes : Code (Unboxing pw) PUnit :=
  modify fun t => { t with dest := fun i => if i < b.layout.size then b.bytes[i]? else t.dest i }

/-- `From<Box<T>>::from`. Where the closure ends, `ManuallyDrop::into_inner` hands the
    box back, value and all, and it is dropped. -/
def fromBox (site : Site pw) : Code (Unboxing pw) PUnit :=
  site.allocWithIn false b.layout (do b.copyBytes; b.dropBox) b.dropBox

/-- `BrcHeader::drop_weak`. -/
def dropWeak : Code (Unboxing pw) PUnit :=
  modify fun t =>
    { t with
      header := t.header.map fun h => (h.1, h.2 - 1)
      deallocated := t.deallocated + if t.header.map Prod.snd = some 1 then 1 else 0 }

/-- `DropInfo::erased_dealloc`, which the release of the last handle ends in. -/
def erasedDealloc : Code (Unboxing pw) PUnit := do
  onUnwind dropWeak b.dropValue
  dropWeak

/-- No destructor has run, the box has been freed, and from here on the object owns
    the value: its last release runs the destructor and gives the memory back. -/
structure Moved (t : Unboxing pw) : Prop where
  destructions : t.source.destructions = 0
  boxFreed : t.source.boxFreed = b.allocations
  bytes : ∀ i < b.layout.size, t.dest i = b.bytes[i]?
  released :
    let once := fun t' : Unboxing pw =>
      t'.source.destructions = b.destructors ∧ t'.deallocated = t'.allocated
    Ends False (fun _ => once) once b.erasedDealloc t

/-- A conversion that got no memory has dropped the box, and the value with it. -/
structure Refused (t : Unboxing pw) : Prop where
  allocated : t.allocated = 0
  destructions : t.source.destructions = b.destructors
  boxFreed : t.source.boxFreed = b.allocations

/-- The value keeps one owner at a time. -/
def Transfers (site : Site pw) : Prop :=
  Ends True (fun _ => b.Moved) b.Refused (b.fromBox site) (.start ⟨0, 0⟩)

variable {b} {aborted : Prop} {post : PUnit → Unboxing pw → Prop} {unwound : Unboxing pw → Prop}
  {t : Unboxing pw}

theorem ends_dropValue_nothing (glue : b.glue = .nothing) :
    Ends aborted post unwound b.dropValue t ↔ post ⟨⟩ t := by
  simp only [dropValue, glue, ends_pure]

theorem ends_dropValue_returns (glue : b.glue = .returns) :
    Ends aborted post unwound b.dropValue t ↔
      post ⟨⟩ (t.setSource { t.source with destructions := t.source.destructions + 1 }) := by
  simp only [dropValue, glue, ends_modify]

theorem ends_dropValue_panics (glue : b.glue = .panics) :
    Ends aborted post unwound b.dropValue t ↔
      unwound (t.setSource { t.source with destructions := t.source.destructions + 1 }) := by
  simp only [dropValue, glue, ends_bind, ends_modify, ends_unwinding]

/-- The box is freed on every way out of its drop. -/
theorem ends_dropBox :
    Ends aborted post unwound b.dropBox t ↔
      Ends aborted
        (fun _ t' => post ⟨⟩
          (t'.setSource { t'.source with boxFreed := t'.source.boxFreed + b.allocations }))
        (fun t' => unwound
          (t'.setSource { t'.source with boxFreed := t'.source.boxFreed + b.allocations }))
        b.dropValue t := by
  simp only [dropBox, ends_bind, ends_onUnwind, freeBox, ends_modify]
  rfl

theorem ends_fromBox_granted {site : Site pw} (granted : site.answer b.layout = .granted) :
    Ends aborted post unwound (b.fromBox site) t ↔
      Ends aborted post unwound b.dropBox
        { t.initialized site.thisId with
          dest := fun i => if i < b.layout.size then b.bytes[i]? else t.dest i } := by
  simp only [fromBox, Site.ends_allocWithIn_granted granted, copyBytes, ends_bind, ends_modify,
    Bool.false_eq_true, ↓reduceIte]
  rfl

/-- A refused allocation leaves the value to the drop of the box. -/
theorem transfers_of_refused {site : Site pw} (refused : site.answer b.layout ≠ .granted) :
    b.Transfers site := by
  unfold Transfers
  cases answer : site.answer b.layout with
  | granted => exact absurd answer refused
  | aborts => exact (Site.ends_allocWithIn_aborts answer).mpr trivial
  | unwinds =>
      rw [fromBox, Site.ends_allocWithIn_unwinds answer, ends_dropBox]
      cases glue : b.glue with
      | nothing =>
          rw [ends_dropValue_nothing glue]
          exact ⟨rfl, by simp [destructors, glue, Target.setSource, Target.start],
            by simp [Target.setSource, Target.start]⟩
      | returns =>
          rw [ends_dropValue_returns glue]
          exact ⟨rfl, by simp [destructors, glue, Target.setSource, Target.start],
            by simp [Target.setSource, Target.start]⟩
      | panics =>
          rw [ends_dropValue_panics glue]
          trivial

theorem transfers_of_nothing {site : Site pw} (granted : site.answer b.layout = .granted)
    (glue : b.glue = .nothing) : b.Transfers site := by
  rw [Transfers, ends_fromBox_granted granted, ends_dropBox, ends_dropValue_nothing glue]
  exact {
    destructions := rfl
    boxFreed := Nat.zero_add _
    bytes := fun i inside => by simp [Target.setSource, inside]
    released := by
      simp only [erasedDealloc, ends_bind, ends_onUnwind, ends_dropValue_nothing glue, dropWeak,
        ends_modify]
      simp [destructors, glue, Target.setSource, Target.initialized, Target.start]
  }

/-- A destructor runs when the box is dropped in the closure. -/
theorem not_transfers_of_destructor {site : Site pw} (granted : site.answer b.layout = .granted)
    (glue : b.glue ≠ .nothing) : ¬ b.Transfers site := by
  rw [Transfers, ends_fromBox_granted granted, ends_dropBox]
  cases kind : b.glue with
  | nothing => exact absurd kind glue
  | returns =>
      rw [ends_dropValue_returns kind]
      intro moved
      exact Nat.one_ne_zero moved.destructions
  | panics =>
      rw [ends_dropValue_panics kind]
      intro refused
      exact Nat.one_ne_zero refused.allocated

/-- The transfer is sound for values that have no destructor to run. -/
theorem transfers_iff (b : Boxed pw) (site : Site pw) :
    b.Transfers site ↔ (site.answer b.layout = .granted → b.glue = .nothing) := by
  constructor
  · intro transfers granted
    by_contra glue
    exact not_transfers_of_destructor granted glue transfers
  · intro condition
    by_cases granted : site.answer b.layout = .granted
    · exact transfers_of_nothing granted (condition granted)
    · exact transfers_of_refused granted

/-- A boxed value of two bytes whose type implements `Drop`. -/
def boxedGuard : Boxed .w64 where
  layout := ⟨2, 1, ⟨0, rfl⟩, by decide⟩
  bytes := [0x2a, 0x07]
  sized := rfl
  glue := .returns

theorem boxedGuard_destroyed_early :
    ¬ boxedGuard.Transfers ⟨⟨24, 8, ⟨3, rfl⟩, by decide⟩, fun _ => .granted, none⟩ := by
  intro moved
  exact absurd moved.destructions (by decide)

end Boxed

end BiasedRc
