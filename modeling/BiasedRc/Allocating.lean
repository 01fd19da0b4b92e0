import BiasedRc.Header
import BiasedRc.Layout
import BiasedRc.Lib.Unwind

/-! # Allocating an object

Every constructor goes through `alloc_with_in`, which is given the code that
initializes the value. The implicit collection at its start never unwinds and
concerns other objects, so it is left out.
-/

namespace BiasedRc

open Unwind

/-- What an allocator makes of a request. After a refusal `handle_alloc_error`
    aborts or unwinds. -/
inductive AllocOutcome where
  | granted
  | aborts
  | unwinds
  deriving DecidableEq, Repr

/-- The allocator of a constructor, the layout of its headers, and the calling thread. -/
structure Site (pw : PointerWidth) where
  header : Layout pw
  allocate : Layout pw → AllocOutcome
  thisId : Option ShortThreadId

/-- The new allocation, and what the closure takes the value from. -/
structure Target (pw : PointerWidth) (Cell Source : Type) where
  allocated : Nat
  deallocated : Nat
  header : Option (RawBrcHeader pw × BitVec 32)
  dest : Nat → Option Cell
  source : Source

namespace Target

variable {pw : PointerWidth} {Cell Source : Type}

/-- Nothing is allocated yet. -/
def start (source : Source) : Target pw Cell Source where
  allocated := 0
  deallocated := 0
  header := none
  dest := fun _ => none
  source := source

def setSource (t : Target pw Cell Source) (source : Source) : Target pw Cell Source :=
  { t with source }

/-- `slot.write(cell)`. -/
def write (t : Target pw Cell Source) (index : Nat) (cell : Cell) : Target pw Cell Source :=
  { t with dest := Function.update t.dest index (some cell) }

/-- The state a closure of `alloc_with_in` starts in. -/
def initialized (t : Target pw Cell Source) (thisId : Option ShortThreadId) :
    Target pw Cell Source :=
  { t with allocated := t.allocated + 1, header := some (.init thisId, 1) }

/-- `CleanupGuard::drop`. -/
def deallocate (t : Target pw Cell Source) : Target pw Cell Source :=
  { t with deallocated := t.deallocated + 1 }

end Target

namespace Site

variable {pw : PointerWidth} {Cell Source : Type} (site : Site pw)

/-- `LayoutInfo::new_or_panic`, then `Allocator::allocate`, for a value of this layout. -/
def answer (layout : Layout pw) : AllocOutcome :=
  match LayoutInfo.new site.header layout with
  | none => .unwinds
  | some info => site.allocate info.fullLayout

/-- The memory that is asked for, with its header and its weak count. -/
def reserve (layout : Layout pw) : Code (Target pw Cell Source) PUnit :=
  match site.answer layout with
  | .granted => modify (·.initialized site.thisId)
  | .aborts => throw .aborted
  | .unwinds => throw .unwinding

/-- `Brc::alloc_with_in`. The closure is `func`, and `dropFunc` is the drop of one
    that was never called. -/
def allocWithIn (mayUnwind : Bool) (layout : Layout pw)
    (func dropFunc : Code (Target pw Cell Source) PUnit) : Code (Target pw Cell Source) PUnit := do
  onUnwind dropFunc (site.reserve layout)
  onUnwind (if mayUnwind then modify Target.deallocate else pure ⟨⟩) func

variable {site} {layout : Layout pw} {func dropFunc : Code (Target pw Cell Source) PUnit}
  {aborted : Prop} {post : PUnit → Target pw Cell Source → Prop}
  {unwound : Target pw Cell Source → Prop} {t : Target pw Cell Source}

theorem ends_allocWithIn_granted {mayUnwind : Bool} (granted : site.answer layout = .granted) :
    Ends aborted post unwound (site.allocWithIn mayUnwind layout func dropFunc) t ↔
      Ends aborted post (fun t' => unwound (if mayUnwind then t'.deallocate else t')) func
        (t.initialized site.thisId) := by
  simp only [allocWithIn, reserve, granted, ends_bind, ends_onUnwind, ends_modify]
  cases mayUnwind <;> rfl

theorem ends_allocWithIn_aborts {mayUnwind : Bool} (aborts : site.answer layout = .aborts) :
    Ends aborted post unwound (site.allocWithIn mayUnwind layout func dropFunc) t ↔ aborted := by
  simp [allocWithIn, reserve, aborts]

theorem ends_allocWithIn_unwinds {mayUnwind : Bool} (unwinds : site.answer layout = .unwinds) :
    Ends aborted post unwound (site.allocWithIn mayUnwind layout func dropFunc) t ↔
      Ends aborted (fun _ => unwound) (fun _ => aborted) dropFunc t := by
  simp [allocWithIn, reserve, unwinds]

end Site

end BiasedRc
