import BiasedRc.Allocating
import Mathlib.Data.List.Perm.Basic

/-! # Collecting an iterator into a slice

`Brc<[T]>` is filled in place from an iterator that claims an exact length, and
from a `Vec` otherwise. An iterator is what its calls of `next` do in order, so it
may end early, go on after its end, or panic, and its hints may be wrong. Each item
that it yields is recorded, and so is each destructor that runs. `Vec` is what the
standard library does for iterators in general, up to the requests for memory.
-/

namespace BiasedRc

open Unwind

/-- What a call of `Iterator::next` does. -/
inductive Next (α : Type) where
  | item (a : α)
  | done
  | panics

/-- An iterator; the numbers count its earlier calls of `next`. -/
structure Iter (α : Type) where
  next : Nat → Next α
  dropPanics : Nat → Bool
  sizeHint : Nat → Nat × Option Nat

/-- The element type of a slice. -/
structure Element (pw : PointerWidth) (α : Type) where
  layout : Layout pw
  needsDrop : Bool
  dropPanics : α → Bool

/-- The iterator in the course of a construction, and the guard around the items. -/
structure Draw (α : Type) where
  calls : Nat
  /-- `AssertExactIter::len`. -/
  len : Nat
  /-- `PartialDropGuard::initialized_len`, if there is a guard. -/
  initializedLen : Option Nat
  yielded : List α
  dropped : List α

/-- A slice under construction. -/
abbrev Filling (pw : PointerWidth) (α : Type) := Target pw α (Draw α)

namespace Filling

variable {pw : PointerWidth} {α : Type}

def start (pw : PointerWidth) (α : Type) (len : Nat) : Filling pw α :=
  Target.start { calls := 0, len, initializedLen := none, yielded := [], dropped := [] }

@[simp] theorem start_len {len : Nat} : (start pw α len).source.len = len := rfl

def called (t : Filling pw α) : Filling pw α :=
  t.setSource { t.source with calls := t.source.calls + 1 }

def took (t : Filling pw α) (a : α) : Filling pw α :=
  t.setSource { t.source with calls := t.source.calls + 1, yielded := t.source.yielded ++ [a] }

def setLen (t : Filling pw α) (len : Nat) : Filling pw α := t.setSource { t.source with len }

theorem setLen_start {len len' : Nat} : (start pw α len).setLen len' = start pw α len' := rfl

def setGuard (t : Filling pw α) (initializedLen : Option Nat) : Filling pw α :=
  t.setSource { t.source with initializedLen }

def dropItems (t : Filling pw α) (items : List α) : Filling pw α :=
  t.setSource { t.source with dropped := t.source.dropped ++ items }

/-- The first slots of the value. -/
def slots (t : Filling pw α) (len : Nat) : List (Option α) := (List.range len).map t.dest

end Filling

section Code

variable {pw : PointerWidth} {α : Type} (site : Site pw) (el : Element pw α) (it : Iter α)

/-- `Iterator::next` of the iterator that was given. -/
def innerNext : Code (Filling pw α) (Option α) := do
  let t ← get
  match it.next t.source.calls with
  | .item a =>
      modify (·.took a)
      return some a
  | .done =>
      modify Filling.called
      return none
  | .panics =>
      modify Filling.called
      throw .unwinding

/-- The drop of the iterator that was given. -/
def dropIter : Code (Filling pw α) PUnit := do
  let t ← get
  if it.dropPanics t.source.calls then throw .unwinding

def dropItem (a : α) : Code (Filling pw α) PUnit := do
  modify (·.dropItems [a])
  if el.dropPanics a then throw .unwinding

/-- `drop_in_place` of a slice. After a panic the other elements are still dropped. -/
def dropInPlace : List (Option α) → Code (Filling pw α) PUnit
  | [] => pure ⟨⟩
  | none :: _ => throw .undefined
  | some a :: rest => do
      onUnwind (dropInPlace rest) (dropItem el a)
      dropInPlace rest

/-- `AssertExactIter::next`. -/
def assertExactNext : Code (Filling pw α) (Option α) := do
  let item ← innerNext it
  let t ← get
  match item, t.source.len with
  | none, 0 => return none
  | some a, 0 => onUnwind (dropItem el a) (throw .unwinding)
  | some a, len + 1 =>
      modify (·.setLen len)
      return some a
  | none, _ + 1 => throw .unwinding

/-- `PartialDropGuard::drop`. -/
def partialDropGuard : Code (Filling pw α) PUnit := do
  let t ← get
  match t.source.initializedLen with
  | none => pure ⟨⟩
  | some len => dropInPlace el (t.slots len)

/-- The iterations of the loop from `index` on. -/
def fill : Nat → Nat → Code (Filling pw α) PUnit
  | _, 0 => pure ⟨⟩
  | index, rest + 1 => do
      modify fun t => t.setGuard (t.source.initializedLen.map fun _ => index)
      match ← assertExactNext el it with
      | none => throw .undefined
      | some item =>
          modify (·.write index item)
          fill (index + 1) rest

/-- `do_init`. While it unwinds, locals are dropped before what the closure owns. -/
def doInit (mayUnwind : Bool) (len : Nat) : Code (Filling pw α) PUnit := do
  modify (·.setGuard (if mayUnwind && el.needsDrop then some 0 else none))
  onUnwind (dropIter it) <| onUnwind (partialDropGuard el) do
    fill el it 0 len
    let _ ← assertExactNext el it
  onUnwind (partialDropGuard el) (dropIter it)
  modify (·.setGuard none)

/-- `Brc::from_iter_exact_trusted_in`, given an `AssertExactIter`. -/
def fromIterExactTrustedIn (mayUnwind : Bool) (layout : Layout pw) :
    Code (Filling pw α) (List (Option α)) := do
  let len := (← get).source.len
  site.allocWithIn mayUnwind layout (doInit el it mayUnwind len) (dropIter it)
  return (← get).slots len

/-- `RawVec::MIN_NON_ZERO_CAP`. -/
def minNonZeroCap : Nat :=
  if el.layout.size = 1 then 8 else if el.layout.size ≤ 1024 then 4 else 1

/-- One more than the length that is hinted after so many calls of `next`: `saturating_add(1)`
    of the lower bound. -/
def hinted (pw : PointerWidth) (it : Iter α) (calls : Nat) : Nat :=
  min ((it.sizeHint calls).1 + 1) (usizeMax pw)

/-- The capacity that a `Vec` is made with, from one more than the hint. -/
def initialCapacity (hint : Nat) : Nat :=
  if el.layout.size = 0 then usizeMax pw else max (minNonZeroCap el) hint

/-- The capacity that `RawVec::grow_amortized` gives a full `Vec`, unless it overflows. -/
def grownCapacity (cap additional : Nat) : Option Nat :=
  if el.layout.size = 0 ∨ usizeMax pw < cap + additional then none
  else some (max (minNonZeroCap el) (max (2 * cap) (cap + additional)))

/-- The memory for a capacity. There is none to ask for when items have no size. -/
def request (buffer : Nat → AllocOutcome) (cap : Nat) : Code (Filling pw α) PUnit :=
  match Layout.array el.layout cap with
  | none => throw .unwinding
  | some layout =>
      if layout.size = 0 then pure ⟨⟩
      else match buffer cap with
        | .granted => pure ⟨⟩
        | .aborts => throw .aborted
        | .unwinds => throw .unwinding

/-- `Vec::with_capacity`, and `Vec::capacity` of the result. -/
def withCapacity (buffer : Nat → AllocOutcome) (hint : Nat) : Code (Filling pw α) Nat := do
  request el buffer (initialCapacity el hint)
  return initialCapacity el hint

/-- `Vec::reserve` of a full `Vec`, and its new `Vec::capacity`. -/
def reserve (buffer : Nat → AllocOutcome) (cap additional : Nat) : Code (Filling pw α) Nat :=
  match grownCapacity el cap additional with
  | none => throw .unwinding
  | some grown => do
      request el buffer grown
      return grown

/-- `Vec::extend_desugared`, for at most so many calls of `next`. The iterator is its own,
    the items are its caller's. -/
def extendDesugared (buffer : Nat → AllocOutcome) :
    Nat → Nat → List α → Code (Filling pw α) (List α)
  | 0, _, _ => throw .undefined
  | fuel + 1, cap, items => do
      match ← onUnwind (dropInPlace el (items.map some)) <| onUnwind (dropIter it) (innerNext it) with
      | none =>
          onUnwind (dropInPlace el (items.map some)) (dropIter it)
          return items
      | some a =>
          let t ← get
          let cap ← if items.length = cap then
              onUnwind (dropInPlace el (items.map some)) <| onUnwind (dropIter it) <|
                onUnwind (dropItem el a) <| reserve el buffer cap (hinted pw it t.source.calls)
            else pure cap
          extendDesugared buffer fuel cap (items ++ [a])

/-- `Iterator::collect::<Vec<T>>`, as `Vec::from_iter` does it for any iterator. -/
def collectVec (buffer : Nat → AllocOutcome) (fuel : Nat) : Code (Filling pw α) (List α) := do
  match ← onUnwind (dropIter it) (innerNext it) with
  | none =>
      dropIter it
      return []
  | some a =>
      let t ← get
      let cap ← onUnwind (dropIter it) <| onUnwind (dropItem el a) <|
        withCapacity el buffer (hinted pw it t.source.calls)
      extendDesugared el it buffer fuel cap [a]

/-- `From<Vec<T>>`; `Layout::for_value` is the layout of an array of that length. -/
def fromVec (items : List α) : Code (Filling pw α) (List (Option α)) := do
  match Layout.array el.layout items.length with
  | none => throw .undefined
  | some layout =>
      site.allocWithIn false layout
        (modify fun t => { t with dest := fun i => items[i]?.or (t.dest i) })
        (dropInPlace el (items.map some))
      return (← get).slots items.length

/-- The branch for a length that was claimed to be exact. -/
def fromIterExact (len : Nat) : Code (Filling pw α) (List (Option α)) :=
  match Layout.array el.layout len with
  | none => onUnwind (dropIter it) (throw .unwinding)
  | some layout => do
      modify (·.setLen len)
      fromIterExactTrustedIn site el it true layout

/-- The branch that collects into a `Vec` first. -/
def fromIterBuffered (buffer : Nat → AllocOutcome) (fuel : Nat) :
    Code (Filling pw α) (List (Option α)) := do
  let items ← collectVec el it buffer fuel
  fromVec site el items

/-- `FromIterator::from_iter`. -/
def fromIter (buffer : Nat → AllocOutcome) (fuel : Nat) : Code (Filling pw α) (List (Option α)) := do
  let t ← get
  let (lower, upper) := it.sizeHint t.source.calls
  if some lower = upper then fromIterExact site el it lower
  else fromIterBuffered site el it buffer fuel

end Code

section Steps

variable {pw : PointerWidth} {α : Type} {site : Site pw} {el : Element pw α} {it : Iter α}
  {aborted : Prop} {unwound : Filling pw α → Prop} {t : Filling pw α}

theorem ends_innerNext {post : Option α → Filling pw α → Prop} :
    Ends aborted post unwound (innerNext it) t ↔
      match it.next t.source.calls with
      | .item a => post (some a) (t.took a)
      | .done => post none t.called
      | .panics => unwound t.called := by
  simp only [innerNext, ends_bind, ends_get]
  split <;> simp only [ends_bind, ends_modify, ends_pure, ends_unwinding]

theorem ends_dropIter {post : PUnit → Filling pw α → Prop} :
    Ends aborted post unwound (dropIter it) t ↔
      if it.dropPanics t.source.calls then unwound t else post ⟨⟩ t := by
  simp only [dropIter, ends_bind, ends_get]
  split <;> simp only [ends_unwinding, ends_pure]

theorem ends_dropItem {post : PUnit → Filling pw α → Prop} {a : α} :
    Ends aborted post unwound (dropItem el a) t ↔
      if el.dropPanics a then unwound (t.dropItems [a]) else post ⟨⟩ (t.dropItems [a]) := by
  simp only [dropItem, ends_bind, ends_modify]
  split <;> simp only [ends_unwinding, ends_pure]

theorem ends_assertExactNext {post : Option α → Filling pw α → Prop} :
    Ends aborted post unwound (assertExactNext el it) t ↔
      match it.next t.source.calls, t.source.len with
      | .item a, 0 => Ends aborted (fun _ => unwound) (fun _ => aborted) (dropItem el a) (t.took a)
      | .item a, len + 1 => post (some a) ((t.took a).setLen len)
      | .done, 0 => post none t.called
      | .done, _ + 1 => unwound t.called
      | .panics, _ => unwound t.called := by
  simp only [assertExactNext, ends_bind, ends_innerNext, ends_get]
  cases it.next t.source.calls with
  | item a | done =>
      cases len : t.source.len <;>
        simp only [Filling.took, Filling.called, Target.setSource, len, ends_onUnwind, ends_unwinding,
          ends_pure, ends_bind, ends_modify]
  | panics => rfl

/-- Items in their slots are dropped in order. A destructor that panics aborts,
    as a cleanup runs it. -/
theorem ends_dropInPlace {items : List α} {t : Filling pw α} {unwound : Filling pw α → Prop}
    (panics : ∀ a ∈ items, el.dropPanics a = true → aborted)
    (dropped : (∀ a ∈ items, el.dropPanics a = false) → unwound (t.dropItems items)) :
    Ends aborted (fun _ => unwound) (fun _ => aborted) (dropInPlace el (items.map some)) t := by
  induction items generalizing t unwound with
  | nil => simpa [dropInPlace, Filling.dropItems, Target.setSource] using dropped
  | cons a rest ih =>
      simp only [List.map_cons, dropInPlace, ends_bind, ends_onUnwind, ends_dropItem]
      have panicsRest : ∀ b ∈ rest, el.dropPanics b = true → aborted :=
        fun b inRest => panics b (.tail a inRest)
      split
      · rename_i panicked
        exact ih panicsRest fun _ => panics a (.head rest) panicked
      · rename_i quiet
        refine ih panicsRest fun quietRest => ?_
        have all : ∀ b ∈ a :: rest, el.dropPanics b = false := by
          simpa only [List.forall_mem_cons, Bool.not_eq_true] using And.intro quiet quietRest
        simpa [Filling.dropItems, Target.setSource] using dropped all

end Steps

/-- The first calls of `next` yield these items. -/
def Iter.Gives {α : Type} (it : Iter α) (items : List α) : Prop :=
  ∀ i a, items[i]? = some a → it.next i = .item a

namespace Iter

variable {α : Type} {it : Iter α} {items items' : List α}

theorem Gives.snoc {a : α} (given : it.Gives items) (next : it.next items.length = .item a) :
    it.Gives (items ++ [a]) := by
  intro i b found
  rcases Nat.lt_trichotomy i items.length with inside | rfl | outside
  · rw [List.getElem?_append_left inside] at found
    exact given i b found
  · simp only [List.getElem?_concat_length, Option.some.injEq] at found
    exact found ▸ next
  · rw [List.getElem?_eq_none (by simp only [List.length_append, List.length_singleton]; omega)] at found
    cases found

theorem Gives.length_le (given : it.Gives items')
    (stops : ∀ a, it.next items.length ≠ .item a) : items'.length ≤ items.length := by
  by_contra longer
  have inside : items.length < items'.length := by omega
  exact stops _ (given _ _ (List.getElem?_eq_getElem inside))

theorem Gives.unique (given : it.Gives items) (given' : it.Gives items')
    (same : items.length = items'.length) : items = items' := by
  refine List.ext_getElem same fun i inside inside' => ?_
  have first := given i _ (List.getElem?_eq_getElem inside)
  rw [given' i _ (List.getElem?_eq_getElem inside')] at first
  exact (Next.item.inj first).symm

end Iter

/-- Every item that was yielded lies in its slot, in the one allocation. -/
structure Written {pw : PointerWidth} {α : Type} (it : Iter α) (t : Filling pw α) : Prop where
  given : it.Gives t.source.yielded
  dest : ∀ i < t.source.yielded.length, t.dest i = t.source.yielded[i]?
  dropped : t.source.dropped = []
  allocated : t.allocated = 1
  deallocated : t.deallocated = 0

/-- The guard around the items covers these. -/
def Covers {pw : PointerWidth} {α : Type} (t : Filling pw α) (items : List α) : Prop :=
  t.source.initializedLen.elim [] t.slots = items.map some

/-- The loop has run up to `index`, with `rest` items to come. The guard is one item late. -/
structure Filled {pw : PointerWidth} {α : Type} (it : Iter α) (guarded : Bool) (index rest : Nat)
    (t : Filling pw α) : Prop extends Written it t where
  calls : t.source.calls = index
  length : t.source.yielded.length = index
  len : t.source.len = rest
  guard : t.source.initializedLen = if guarded then some (index - 1) else none

/-- The loop unwound, before `len` items. -/
structure Stopped {pw : PointerWidth} {α : Type} (it : Iter α) (guarded : Bool) (len : Nat)
    (t : Filling pw α) : Prop extends Written it t where
  short : t.source.yielded.length < len
  next : ∀ a, it.next t.source.yielded.length ≠ .item a
  guard : t.source.initializedLen = if guarded then some t.source.yielded.length else none

section Runs

variable {pw : PointerWidth} {α : Type} {site : Site pw} {el : Element pw α} {it : Iter α}
  {aborted : Prop} {unwound : Filling pw α → Prop} {t : Filling pw α} {guarded : Bool}

theorem Written.slots {len : Nat} (written : Written it t) (inside : len ≤ t.source.yielded.length) :
    t.slots len = (t.source.yielded.take len).map some := by
  refine List.ext_getElem? fun i => ?_
  by_cases below : i < len
  · have found := written.dest i (by omega)
    have present : i < t.source.yielded.length := by omega
    simp [Filling.slots, below, found, present]
  · rw [List.getElem?_eq_none (by simp only [Filling.slots, List.length_map, List.length_range]; omega),
      List.getElem?_eq_none (by simp only [List.length_map, List.length_take]; omega)]

/-- An iteration that yields an item. -/
theorem Filled.snoc {index rest : Nat} {a : α} (filled : Filled it guarded index (rest + 1) t)
    (next : it.next index = .item a) :
    Filled it guarded (index + 1) rest
      ((((t.setGuard (t.source.initializedLen.map fun _ => index)).took a).setLen rest).write index a) where
  given := filled.given.snoc (filled.length ▸ next)
  dest := by
    intro i below
    simp only [Filling.setGuard, Filling.took, Filling.setLen, Target.setSource, Target.write,
      List.length_append, List.length_singleton, filled.length] at below ⊢
    rcases Nat.lt_or_eq_of_le (Nat.le_of_lt_succ below) with earlier | rfl
    · rw [Function.update_of_ne (by omega), filled.dest i (by rw [filled.length]; exact earlier),
        List.getElem?_append_left (by rw [filled.length]; exact earlier)]
    · rw [Function.update_self, ← filled.length, List.getElem?_concat_length]
  dropped := filled.dropped
  allocated := filled.allocated
  deallocated := filled.deallocated
  calls := congrArg (· + 1) filled.calls
  length := by
    simp only [Filling.setGuard, Filling.took, Filling.setLen, Target.setSource, Target.write,
      List.length_append, List.length_singleton, filled.length]
  len := rfl
  guard := by
    simp only [Filling.setGuard, Filling.took, Filling.setLen, Target.setSource, Target.write,
      filled.guard]
    cases guarded <;> rfl

/-- An iteration that unwinds. -/
theorem Filled.stop {index rest : Nat} (filled : Filled it guarded index (rest + 1) t)
    (next : ∀ a, it.next index ≠ .item a) :
    Stopped it guarded (index + (rest + 1))
      (t.setGuard (t.source.initializedLen.map fun _ => index)).called where
  given := filled.given
  dest := filled.dest
  dropped := filled.dropped
  allocated := filled.allocated
  deallocated := filled.deallocated
  short := by
    have := filled.length
    simp only [Filling.setGuard, Filling.called, Target.setSource]
    omega
  next := fun a => filled.length.symm ▸ next a
  guard := by
    simp only [Filling.setGuard, Filling.called, Target.setSource, filled.guard, filled.length]
    cases guarded <;> rfl

theorem ends_fill {index rest : Nat} (filled : Filled it guarded index rest t) :
    Ends aborted (fun _ => Filled it guarded (index + rest) 0) (Stopped it guarded (index + rest))
      (fill el it index rest) t := by
  induction rest generalizing index t with
  | zero => exact filled
  | succ rest ih =>
      simp only [fill, ends_bind, ends_modify, ends_assertExactNext]
      have calls : (t.setGuard (t.source.initializedLen.map fun _ => index)).source.calls = index :=
        filled.calls
      have len : (t.setGuard (t.source.initializedLen.map fun _ => index)).source.len = rest + 1 :=
        filled.len
      rw [calls, len]
      cases next : it.next index with
      | item a =>
          have later := ih (filled.snoc next)
          rwa [Nat.add_right_comm] at later
      | done | panics => exact filled.stop fun a => by rw [next]; rintro ⟨⟩

theorem Filled.covers {index rest : Nat} (filled : Filled it guarded index rest t) :
    Covers t (if guarded then t.source.yielded.dropLast else []) := by
  rw [Covers, filled.guard]
  cases guarded with
  | false => rfl
  | true =>
      have inside : index - 1 ≤ t.source.yielded.length := by rw [filled.length]; omega
      simp only [↓reduceIte, Option.elim_some, filled.slots inside, List.dropLast_eq_take, filled.length]

theorem Stopped.covers {len : Nat} (stopped : Stopped it guarded len t) :
    Covers t (if guarded then t.source.yielded else []) := by
  rw [Covers, stopped.guard]
  cases guarded with
  | false => rfl
  | true => simp only [↓reduceIte, Option.elim_some, stopped.slots (Nat.le_refl _), List.take_length]

theorem ends_partialDropGuard {items : List α} (covers : Covers t items)
    (panics : ∀ a ∈ items, el.dropPanics a = true → aborted)
    (dropped : (∀ a ∈ items, el.dropPanics a = false) → unwound (t.dropItems items)) :
    Ends aborted (fun _ => unwound) (fun _ => aborted) (partialDropGuard el) t := by
  have drops := ends_dropInPlace (t := t) panics dropped
  rw [← covers] at drops
  simp only [partialDropGuard, ends_bind, ends_get]
  cases guard : t.source.initializedLen with
  | none | some len =>
      rw [guard] at drops
      exact drops

theorem filled_start {len : Nat} :
    Filled it guarded 0 len
      (Filling.setGuard ((Filling.start pw α len).initialized site.thisId)
        (if guarded then some 0 else none)) where
  given := by intro i a found; cases found
  dest := nofun
  dropped := rfl
  allocated := rfl
  deallocated := rfl
  calls := rfl
  length := rfl
  len := rfl
  guard := rfl

/-- The guard's cleanup, and then the drop of the iterator. -/
def CleansUp (el : Element pw α) (it : Iter α) (aborted : Prop) (unwound : Filling pw α → Prop) :
    Filling pw α → Prop :=
  Ends aborted (fun _ => Ends aborted (fun _ => unwound) (fun _ => aborted) (dropIter it))
    (fun _ => aborted) (partialDropGuard el)

theorem cleansUp {items : List α} (covers : Covers t items)
    (panics : ∀ a ∈ items, el.dropPanics a = true → aborted)
    (again : it.dropPanics t.source.calls = true → aborted)
    (dropped : (∀ a ∈ items, el.dropPanics a = false) → it.dropPanics t.source.calls = false →
      unwound (t.dropItems items)) :
    CleansUp el it aborted unwound t := by
  refine ends_partialDropGuard covers panics fun quiet => ?_
  rw [ends_dropIter]
  split
  · rename_i panicked
    exact again panicked
  · rename_i silent
    exact dropped quiet (Bool.not_eq_true _ ▸ silent)

/-- Where `do_init` can end. -/
theorem ends_doInit {post : PUnit → Filling pw α → Prop} {mayUnwind : Bool} {len : Nat}
    (stopped : ∀ t', Stopped it (mayUnwind && el.needsDrop) len t' → CleansUp el it aborted unwound t')
    (extra : ∀ t' a, Filled it (mayUnwind && el.needsDrop) len 0 t' → it.next len = .item a →
      if el.dropPanics a then aborted
      else CleansUp el it aborted unwound ((t'.took a).dropItems [a]))
    (panics : ∀ t', Filled it (mayUnwind && el.needsDrop) len 0 t' → it.next len = .panics →
      CleansUp el it aborted unwound t'.called)
    (done : ∀ t', Filled it (mayUnwind && el.needsDrop) len 0 t' → it.next len = .done →
      if it.dropPanics (len + 1) then
        Ends aborted (fun _ => unwound) (fun _ => aborted) (partialDropGuard el) t'.called
      else post ⟨⟩ (t'.called.setGuard none)) :
    Ends aborted post unwound (doInit el it mayUnwind len)
      ((Filling.start pw α len).initialized site.thisId) := by
  simp only [doInit, ends_bind, ends_modify, ends_onUnwind, ends_pure]
  refine ((Nat.zero_add len ▸ ends_fill filled_start : Ends aborted _ _ _ _)).mono id
    (fun _ t' filled => ?_) stopped
  rw [ends_assertExactNext, filled.len, filled.calls]
  cases next : it.next len with
  | item a =>
      dsimp only
      rw [ends_dropItem]
      exact extra t' a filled next
  | panics => exact panics t' filled next
  | done =>
      have calls : t'.called.source.calls = len + 1 := congrArg (· + 1) filled.calls
      simp only [ends_dropIter, calls]
      exact done t' filled next

end Runs

section Unwinding

variable {pw : PointerWidth} {α : Type} {site : Site pw} {el : Element pw α} {it : Iter α}

/-- The construction unwinds when all `len` items were yielded. A destructor that
    panics in a cleanup aborts. -/
def FailsAfter (el : Element pw α) (it : Iter α) (len : Nat) : Prop :=
  match it.next len with
  | .item a => it.dropPanics (len + 1) = false ∧ el.dropPanics a = false
  | .panics => it.dropPanics (len + 1) = false
  | .done => it.dropPanics (len + 1) = true

/-- The guard misses the last one of these items. -/
structure LosesLast (site : Site pw) (el : Element pw α) (it : Iter α) (layout : Layout pw)
    (items : List α) : Prop where
  granted : site.answer layout = .granted
  nonempty : items ≠ []
  given : it.Gives items
  dropped : ∀ a ∈ items.dropLast, el.dropPanics a = false
  fails : FailsAfter el it items.length

/-- Every item that was yielded was dropped once, and the allocation was given back. -/
def Accounted (t : Filling pw α) : Prop :=
  t.source.dropped.Perm t.source.yielded ∧ t.deallocated = t.allocated ∧ t.allocated ≤ 1

/-- No unwritten slot is dropped, and whoever unwinds has accounted for the items. -/
def UnwindSafe {β : Type} (x : Code (Filling pw α) β) (t : Filling pw α) : Prop :=
  Ends True (fun _ _ => True) Accounted x t

theorem accounted_of_dropped {t : Filling pw α} (items : List α)
    (dropped : t.source.dropped = items) (yielded : t.source.yielded = items)
    (allocated : t.allocated = 1) (deallocated : t.deallocated = 0) : Accounted t.deallocate := by
  refine ⟨?_, ?_, ?_⟩
  · simp only [Target.deallocate, dropped, yielded, List.Perm.refl]
  · simp only [Target.deallocate, allocated, deallocated]
  · simp only [Target.deallocate, allocated, Nat.le_refl]

theorem unwindSafe_of_not_losesLast {layout : Layout pw} {len : Nat} (needsDrop : el.needsDrop = true)
    (keeps : ∀ items, items.length = len → ¬ LosesLast site el it layout items) :
    UnwindSafe (fromIterExactTrustedIn site el it true layout) (.start pw α len) := by
  simp only [UnwindSafe, fromIterExactTrustedIn, ends_bind, ends_get, ends_pure, Filling.start_len]
  cases answer : site.answer layout with
  | aborts => exact (Site.ends_allocWithIn_aborts answer).mpr trivial
  | unwinds =>
      rw [Site.ends_allocWithIn_unwinds answer, ends_dropIter]
      split
      · trivial
      · exact ⟨.refl _, rfl, Nat.zero_le 1⟩
  | granted =>
      rw [Site.ends_allocWithIn_granted answer]
      simp only [↓reduceIte]
      -- Nothing was yielded, if the unwinding starts after the loop.
      have empty : ∀ t' : Filling pw α, Filled it true len 0 t' →
          (∀ a ∈ t'.source.yielded.dropLast, el.dropPanics a = false) →
          FailsAfter el it len → t'.source.yielded = [] := by
        intro t' filled quiet fails
        by_contra nonempty
        exact keeps _ filled.length ⟨answer, nonempty, filled.given, quiet, filled.length.symm ▸ fails⟩
      refine ends_doInit ?_ ?_ ?_ ?_ <;> simp only [needsDrop, Bool.and_self]
      · intro t' stopped
        refine cleansUp stopped.covers (fun _ _ _ => trivial) (fun _ => trivial) fun _ _ => ?_
        refine accounted_of_dropped _ ?_ rfl stopped.allocated stopped.deallocated
        simp only [Filling.dropItems, Target.setSource, stopped.dropped, ↓reduceIte, List.nil_append]
      · intro t' a filled next
        split
        · trivial
        · rename_i quietItem
          refine cleansUp filled.covers (fun _ _ _ => trivial) (fun _ => trivial) fun quiet silent => ?_
          have fails : FailsAfter el it len := by
            simp only [FailsAfter, next]
            exact ⟨filled.calls ▸ silent, Bool.not_eq_true _ ▸ quietItem⟩
          have nothing := empty t' filled quiet fails
          refine accounted_of_dropped [a] ?_ ?_ filled.allocated filled.deallocated
          · simp [Filling.dropItems, Filling.took, Target.setSource, filled.dropped, nothing]
          · simp [Filling.dropItems, Filling.took, Target.setSource, nothing]
      · intro t' filled next
        refine cleansUp filled.covers (fun _ _ _ => trivial) (fun _ => trivial) fun quiet silent => ?_
        have fails : FailsAfter el it len := by
          simp only [FailsAfter, next]
          exact filled.calls ▸ silent
        have nothing := empty t' filled quiet fails
        refine accounted_of_dropped [] ?_ nothing filled.allocated filled.deallocated
        simp [Filling.dropItems, Filling.called, Target.setSource, filled.dropped, nothing]
      · intro t' filled next
        split
        · rename_i panicked
          refine ends_partialDropGuard filled.covers (fun _ _ _ => trivial) fun quiet => ?_
          have fails : FailsAfter el it len := by
            simp only [FailsAfter, next, panicked]
          have nothing := empty t' filled quiet fails
          refine accounted_of_dropped [] ?_ nothing filled.allocated filled.deallocated
          simp [Filling.dropItems, Filling.called, Target.setSource, filled.dropped, nothing]
        · trivial

theorem LosesLast.ends {layout : Layout pw} {items : List α} (needsDrop : el.needsDrop = true)
    (loses : LosesLast site el it layout items) :
    Ends False (fun _ _ => False) (fun t => t.source.dropped.length < t.source.yielded.length)
      (fromIterExactTrustedIn site el it true layout) (.start pw α items.length) := by
  simp only [fromIterExactTrustedIn, ends_bind, ends_get, ends_pure, Filling.start_len]
  rw [Site.ends_allocWithIn_granted loses.granted]
  have fails := loses.fails
  have nonempty := List.length_pos_of_ne_nil loses.nonempty
  simp only [↓reduceIte, Target.deallocate]
  -- The guard is asked to drop all items but the last.
  have quiet : ∀ t' : Filling pw α, Filled it true items.length 0 t' →
      ∀ a ∈ t'.source.yielded.dropLast, el.dropPanics a = true → False := by
    intro t' filled a inside panicked
    rw [filled.given.unique loses.given filled.length] at inside
    exact Bool.false_ne_true ((loses.dropped a inside).symm.trans panicked)
  have fewer : ∀ t' : Filling pw α, Filled it true items.length 0 t' →
      t'.source.yielded.dropLast.length < t'.source.yielded.length := by
    intro t' filled
    rw [List.length_dropLast, filled.length]
    omega
  refine ends_doInit ?_ ?_ ?_ ?_ <;> simp only [needsDrop, Bool.and_self]
  · intro t' stopped
    exact absurd (loses.given.length_le stopped.next) (Nat.not_le_of_lt stopped.short)
  · intro t' a filled next
    simp only [FailsAfter, next] at fails
    simp only [fails.2, Bool.false_eq_true, ↓reduceIte]
    refine cleansUp filled.covers (quiet t' filled) (fun panicked => ?_) fun _ _ => ?_
    · exact Bool.false_ne_true (fails.1.symm.trans (filled.calls ▸ panicked))
    · have := fewer t' filled
      simp only [Filling.dropItems, Filling.took, Target.setSource, filled.dropped, ↓reduceIte,
        List.nil_append, List.length_append, List.length_singleton]
      omega
  · intro t' filled next
    simp only [FailsAfter, next] at fails
    refine cleansUp filled.covers (quiet t' filled) (fun panicked => ?_) fun _ _ => ?_
    · exact Bool.false_ne_true (fails.symm.trans (filled.calls ▸ panicked))
    · simp only [Filling.dropItems, Filling.called, Target.setSource, filled.dropped, ↓reduceIte,
        List.nil_append, fewer t' filled]
  · intro t' filled next
    simp only [FailsAfter, next] at fails
    simp only [fails, ↓reduceIte]
    refine ends_partialDropGuard filled.covers (quiet t' filled) fun _ => ?_
    simp only [Filling.dropItems, Filling.called, Target.setSource, filled.dropped, ↓reduceIte,
      List.nil_append, fewer t' filled]

/-- The global allocator with room for everything. -/
def roomySite : Site .w64 where
  header := ⟨24, 8, ⟨3, rfl⟩, by decide⟩
  allocate := fun _ => .granted
  thisId := none

/-- A type of eight bytes with a destructor. -/
def boxedElement : Element .w64 Nat where
  layout := ⟨8, 8, ⟨3, rfl⟩, by decide⟩
  needsDrop := true
  dropPanics := fun _ => false

/-- The construction is exception safe unless the unwinding starts after the last
    of some items has been written. -/
theorem unwindSafe_iff (site : Site pw) (el : Element pw α) (it : Iter α) (layout : Layout pw)
    (len : Nat) (needsDrop : el.needsDrop = true) :
    UnwindSafe (fromIterExactTrustedIn site el it true layout) (.start pw α len) ↔
      ∀ items, items.length = len → ¬ LosesLast site el it layout items := by
  constructor
  · rintro safe items rfl loses
    refine safe.exclusive (loses.ends needsDrop) (fun _ _ _ => id) ?_
    intro t accounted fewer
    have := accounted.1.length_eq
    omega
  · exact unwindSafe_of_not_losesLast needsDrop

/-- One item, and a panic where the end should be. -/
def panicsAtEnd : Iter Nat where
  next := fun calls => if calls = 0 then .item 7 else .panics
  dropPanics := fun _ => false
  sizeHint := fun calls => (1 - calls, some (1 - calls))

theorem panicsAtEnd_leaks : ¬ UnwindSafe
    (fromIterExactTrustedIn roomySite boxedElement panicsAtEnd true boxedElement.layout)
    (.start .w64 Nat 1) := by
  intro safe
  have lost : ([] : List Nat).Perm [7] := safe.1
  exact absurd lost (by decide)

theorem unwindSafe_of_early_panic : UnwindSafe
    (fromIterExactTrustedIn roomySite boxedElement panicsAtEnd true ⟨16, 8, ⟨3, rfl⟩, by decide⟩)
    (.start .w64 Nat 2) :=
  (unwindSafe_iff roomySite boxedElement panicsAtEnd ⟨16, 8, ⟨3, rfl⟩, by decide⟩ 2 rfl).mpr <| by
    rintro items two loses
    have second := loses.given 1 _ (List.getElem?_eq_getElem (by omega))
    cases second

end Unwinding

section Collecting

variable {pw : PointerWidth} {α : Type} {site : Site pw} {el : Element pw α} {it : Iter α}
  {buffer : Nat → AllocOutcome} {items : List α} {t : Filling pw α}

/-- An iterator that never panics, and the items before its first `None`. -/
structure Iter.Yields (it : Iter α) (items : List α) : Prop where
  given : it.Gives items
  done : it.next items.length = .done
  next : ∀ calls, it.next calls ≠ .panics
  drop : ∀ calls, it.dropPanics calls = false

/-- A slice of so many items can be allocated. -/
def Granted (site : Site pw) (el : Element pw α) (len : Nat) : Prop :=
  ∃ layout, Layout.array el.layout len = some layout ∧ site.answer layout = .granted

/-- A `Vec` can have this capacity. -/
def Obtained (el : Element pw α) (buffer : Nat → AllocOutcome) (cap : Nat) : Prop :=
  ∃ layout, Layout.array el.layout cap = some layout ∧ (layout.size ≠ 0 → buffer cap = .granted)

/-- The capacity that `Vec::from_iter` comes to for the first item and so many `more`, when it
    reads these hints after each call of `next`; `none` is an overflow. -/
def capacityFor (el : Element pw α) (hints : Nat → Nat) : Nat → Option Nat
  | 0 => some (initialCapacity el (hints 1))
  | more + 1 => do
      let cap ← capacityFor el hints more
      if more + 1 = cap then grownCapacity el cap (hints (more + 2)) else return cap

/-- A `Vec` can take so many items with these hints: no capacity overflows, and all are had. -/
def Room (el : Element pw α) (hints : Nat → Nat) (buffer : Nat → AllocOutcome) (len : Nat) : Prop :=
  ∀ more < len, ∃ cap, capacityFor el hints more = some cap ∧ Obtained el buffer cap

theorem not_granted {layout : Layout pw} {len : Nat} (array : Layout.array el.layout len = some layout)
    (refused : site.answer layout ≠ .granted) : ¬ Granted site el len := by
  rintro ⟨_, made, granted⟩
  exact refused (Option.some.inj (made.symm.trans array) ▸ granted)

/-- The drop of an iterator that never panics. -/
theorem Iter.Yields.ends_dropIter {aborted : Prop} {post : PUnit → Filling pw α → Prop}
    {unwound : Filling pw α → Prop} (yields : it.Yields items) (dropped : post ⟨⟩ t) :
    Ends aborted post unwound (dropIter it) t := by
  rw [BiasedRc.ends_dropIter, yields.drop]
  exact dropped

theorem ends_fromIterExact (yields : it.Yields items) (len : Nat) :
    let excuse := items.length ≠ len ∨ ¬ Granted site el len
    Ends excuse (fun slice _ => slice = items.map some) (fun _ => excuse)
      (fromIterExact site el it len) (.start pw α 0) := by
  intro excuse
  have stops : ∀ a, it.next items.length ≠ .item a := by
    intro a
    rw [yields.done]
    rintro ⟨⟩
  unfold fromIterExact
  cases array : Layout.array el.layout len with
  | none =>
      have refused : excuse := .inr fun ⟨_, made, _⟩ => Option.some_ne_none _ (made.symm.trans array)
      rw [ends_onUnwind, ends_unwinding]
      exact yields.ends_dropIter refused
  | some layout =>
      simp only [ends_bind, ends_modify, fromIterExactTrustedIn, ends_get, ends_pure,
        Filling.setLen_start, Filling.start_len]
      have refused (other : site.answer layout ≠ .granted) : excuse := .inr (not_granted array other)
      cases answer : site.answer layout with
      | aborts => exact (Site.ends_allocWithIn_aborts answer).mpr (refused (by rw [answer]; rintro ⟨⟩))
      | unwinds =>
          rw [Site.ends_allocWithIn_unwinds answer]
          exact yields.ends_dropIter (refused (by rw [answer]; rintro ⟨⟩))
      | granted =>
          rw [Site.ends_allocWithIn_granted answer]
          refine ends_doInit ?_ ?_ ?_ ?_
          · intro t' stopped
            have short := yields.given.length_le stopped.next
            have lied : excuse := .inl (by have := stopped.short; omega)
            exact cleansUp stopped.covers (fun _ _ _ => lied) (fun _ => lied) fun _ _ => lied
          · intro t' a filled next
            have lied : excuse := by
              refine .inl ?_
              rintro rfl
              exact stops a next
            split
            · exact lied
            · exact cleansUp filled.covers (fun _ _ _ => lied) (fun _ => lied) fun _ _ => lied
          · intro t' _ next
            exact absurd next (yields.next len)
          · intro t' filled next
            rw [yields.drop]
            have le : len ≤ items.length := filled.length ▸ filled.given.length_le stops
            have ge : items.length ≤ len := by
              refine filled.length ▸ yields.given.length_le ?_
              rw [filled.length, next]
              rintro _ ⟨⟩
            have same : t'.source.yielded = items :=
              filled.given.unique yields.given (filled.length.trans (Nat.le_antisymm le ge))
            have slots := filled.slots (Nat.le_of_eq filled.length.symm)
            rw [List.take_of_length_le (Nat.le_of_eq filled.length), same] at slots
            exact slots

/-- What a cleanup that only drops items needs, when any end of it will do. -/
theorem ends_dropInPlace_of {excuse : Prop} (holds : excuse) (items : List α) :
    Ends excuse (fun _ _ => excuse) (fun _ => excuse) (dropInPlace el (items.map some)) t :=
  ends_dropInPlace (fun _ _ _ => holds) fun _ => holds

theorem ends_dropItem_of {excuse : Prop} (holds : excuse) (a : α) :
    Ends excuse (fun _ _ => excuse) (fun _ => excuse) (dropItem el a) t := by
  rw [ends_dropItem]
  split <;> exact holds

theorem hinted_pos (calls : Nat) : 0 < hinted pw it calls := by
  have positive : 0 < usizeMax pw := by
    cases pw <;> simp only [usizeMax, PointerWidth.usizeBits, PointerWidth.sharedBits] <;> omega
  exact lt_min (Nat.succ_pos _) positive

theorem initialCapacity_pos {hint : Nat} (positive : 0 < hint) (le : hint ≤ usizeMax pw) :
    0 < initialCapacity el hint := by
  unfold initialCapacity
  split
  · exact positive.trans_le le
  · exact lt_max_of_lt_right positive

theorem lt_grownCapacity {cap additional grown : Nat} (positive : 0 < additional)
    (grows : grownCapacity el cap additional = some grown) : cap < grown := by
  simp only [grownCapacity, Option.ite_none_left_eq_some, Option.some.injEq] at grows
  obtain ⟨_, rfl⟩ := grows
  have enough : cap + additional ≤ max (minNonZeroCap el) (max (2 * cap) (cap + additional)) :=
    (le_max_right _ _).trans (le_max_right _ _)
  omega

/-- The items fit into the capacity. -/
theorem lt_capacityFor {more cap : Nat} (comes : capacityFor el (hinted pw it) more = some cap) :
    more < cap := by
  induction more generalizing cap with
  | zero =>
      cases comes
      exact initialCapacity_pos (hinted_pos 1) (min_le_right _ _)
  | succ more ih =>
      obtain ⟨before, came, step⟩ := Option.bind_eq_some_iff.mp comes
      have fits := ih came
      split at step
      · have grown := lt_grownCapacity (hinted_pos _) step
        omega
      · cases step
        omega

theorem Obtained.isSome_array {cap len : Nat} (obtained : Obtained el buffer cap) (le : len ≤ cap) :
    (Layout.array el.layout len).isSome := by
  obtain ⟨_, made, _⟩ := obtained
  exact Layout.array_of_le (Option.isSome_of_eq_some made) le

theorem ends_request {aborted : Prop} {post : PUnit → Filling pw α → Prop}
    {unwound : Filling pw α → Prop} {cap : Nat} (obtained : Obtained el buffer cap → post ⟨⟩ t)
    (refused : ¬ Obtained el buffer cap → aborted ∧ unwound t) :
    Ends aborted post unwound (request el buffer cap) t := by
  unfold request
  cases array : Layout.array el.layout cap with
  | none =>
      refine (refused ?_).2
      rintro ⟨_, made, _⟩
      exact Option.some_ne_none _ (made.symm.trans array)
  | some layout =>
      have known : Obtained el buffer cap ↔ (layout.size ≠ 0 → buffer cap = .granted) := by
        simp only [Obtained, array, Option.some.injEq, exists_eq_left']
      rw [known] at obtained refused
      dsimp only
      split
      · exact obtained fun sized => absurd ‹_› sized
      · cases answer : buffer cap with
        | granted => exact obtained fun _ => answer
        | aborts => exact (refused fun had => by cases answer.symm.trans (had ‹_›)).1
        | unwinds => exact (refused fun had => by cases answer.symm.trans (had ‹_›)).2

theorem ends_reserve {excuse : Prop} {post : Nat → Filling pw α → Prop} {unwound : Filling pw α → Prop}
    {cap additional : Nat}
    (obtained : ∀ grown, grownCapacity el cap additional = some grown → Obtained el buffer grown →
      post grown t)
    (refused : (∀ grown, grownCapacity el cap additional = some grown → ¬ Obtained el buffer grown) →
      excuse ∧ unwound t) :
    Ends excuse post unwound (reserve el buffer cap additional) t := by
  unfold reserve
  cases grows : grownCapacity el cap additional with
  | none => exact (refused fun _ grown => by cases grows.symm.trans grown).2
  | some grown =>
      simp only [ends_bind, ends_pure]
      refine ends_request (obtained grown grows) fun other => refused fun _ same => ?_
      cases grows.symm.trans same
      exact other

/-- The loop, with the items in the `Vec` and those still to come. -/
theorem ends_extendDesugared {excuse : Prop} (yields : it.Yields items)
    (room : ¬ Room el (hinted pw it) buffer items.length → excuse) {fuel cap more : Nat}
    {taken rest : List α} (split : items = taken ++ rest) (length : taken.length = more + 1)
    (calls : t.source.calls = taken.length) (fueled : rest.length < fuel)
    (comes : capacityFor el (hinted pw it) more = some cap) (obtained : Obtained el buffer cap) :
    Ends excuse (fun collected _ => collected = items ∧ (Layout.array el.layout items.length).isSome)
      (fun _ => excuse) (extendDesugared el it buffer fuel cap taken) t := by
  induction rest generalizing fuel cap more taken t with
  | nil =>
      obtain ⟨fuel, rfl⟩ : ∃ k, fuel = k + 1 :=
        ⟨fuel - 1, by simp only [List.length_nil] at fueled; omega⟩
      rw [List.append_nil] at split
      subst split
      have fits := lt_capacityFor comes
      simp only [extendDesugared, ends_bind, ends_onUnwind, ends_innerNext, calls, yields.done,
        ends_pure]
      exact yields.ends_dropIter ⟨trivial, obtained.isSome_array (by omega)⟩
  | cons a rest ih =>
      obtain ⟨fuel, rfl⟩ : ∃ k, fuel = k + 1 :=
        ⟨fuel - 1, by simp only [List.length_cons] at fueled; omega⟩
      have next : it.next (more + 1) = .item a := yields.given _ _ (by simp [split, ← length])
      have later {cap' : Nat} (comes' : capacityFor el (hinted pw it) (more + 1) = some cap')
          (obtained' : Obtained el buffer cap') :
          Ends excuse
            (fun collected _ => collected = items ∧ (Layout.array el.layout items.length).isSome)
            (fun _ => excuse) (extendDesugared el it buffer fuel cap' (taken ++ [a])) (t.took a) := by
        refine ih (by rw [split, List.append_assoc]; rfl) ?_ ?_ ?_ comes' obtained'
        · rw [List.length_append, List.length_singleton, length]
        · simp only [Filling.took, Target.setSource, calls, List.length_append, List.length_singleton]
        · simp only [List.length_cons] at fueled
          omega
      have step : capacityFor el (hinted pw it) (more + 1) =
          if more + 1 = cap then grownCapacity el cap (hinted pw it (more + 2)) else some cap := by
        rw [capacityFor, comes]
        rfl
      have called : (t.took a).source.calls = more + 2 := by
        simp only [Filling.took, Target.setSource, calls, length]
      simp only [extendDesugared, ends_bind, ends_onUnwind, ends_innerNext, calls, length, next,
        ends_get, called]
      split
      · rw [if_pos ‹_›] at step
        simp only [ends_bind, ends_onUnwind]
        refine ends_reserve (fun grown grows => later (step.trans grows)) fun refused => ?_
        have inside : more + 1 < items.length := by
          rw [split, List.length_append, length, List.length_cons]
          omega
        have holds : excuse := room fun all => by
          obtain ⟨grown, grows, obtained'⟩ := all (more + 1) inside
          exact refused grown (step.symm.trans grows) obtained'
        exact ⟨holds, (ends_dropItem_of holds a).mono id
          (fun _ _ _ => yields.ends_dropIter (ends_dropInPlace_of holds taken)) fun _ _ => holds⟩
      · rw [if_neg ‹_›] at step
        exact later step obtained

/-- Items collected into a `Vec`; their number makes a layout. -/
theorem ends_collectVec {excuse : Prop} (yields : it.Yields items)
    (room : ¬ Room el (hinted pw it) buffer items.length → excuse) {fuel : Nat}
    (fueled : items.length ≤ fuel) :
    Ends excuse (fun collected _ => collected = items ∧ (Layout.array el.layout items.length).isSome)
      (fun _ => excuse) (collectVec el it buffer fuel) (.start pw α 0) := by
  have calls : (Filling.start pw α 0).source.calls = 0 := rfl
  cases items with
  | nil =>
      simp only [collectVec, ends_bind, ends_onUnwind, ends_innerNext, calls,
        show it.next 0 = .done from yields.done, ends_pure]
      exact yields.ends_dropIter ⟨trivial, el.layout.array_zero⟩
  | cons a rest =>
      have next : it.next 0 = .item a := yields.given 0 a rfl
      simp only [collectVec, withCapacity, ends_bind, ends_onUnwind, ends_innerNext, calls, next,
        ends_get, ends_pure]
      refine ends_request (fun obtained => ?_) fun refused => ?_
      · exact ends_extendDesugared yields room rfl rfl rfl fueled rfl obtained
      · have holds : excuse := room fun all => by
          obtain ⟨_, comes, obtained⟩ := all 0 (Nat.succ_pos _)
          cases comes
          exact refused obtained
        exact ⟨holds, (ends_dropItem_of holds a).mono id (fun _ _ _ => yields.ends_dropIter holds)
          fun _ _ => holds⟩

/-- `copy_from_nonoverlapping` from the buffer of the `Vec`. -/
theorem slots_copied (t : Filling pw α) (items : List α) :
    Filling.slots { t with dest := fun i => items[i]?.or (t.dest i) } items.length =
      items.map some := by
  refine List.ext_getElem (by simp [Filling.slots]) fun i inside inside' => ?_
  simp only [List.length_map] at inside'
  simp [Filling.slots, inside']

theorem ends_fromVec {excuse : Prop} (refused : ¬ Granted site el items.length → excuse)
    (made : (Layout.array el.layout items.length).isSome) :
    Ends excuse (fun slice _ => slice = items.map some) (fun _ => excuse)
      (fromVec site el items) t := by
  obtain ⟨layout, array⟩ := Option.isSome_iff_exists.mp made
  simp only [fromVec, array, ends_bind, ends_get, ends_pure]
  have holds (other : site.answer layout ≠ .granted) : excuse := refused (not_granted array other)
  cases answer : site.answer layout with
  | aborts => exact (Site.ends_allocWithIn_aborts answer).mpr (holds (by rw [answer]; rintro ⟨⟩))
  | unwinds =>
      rw [Site.ends_allocWithIn_unwinds answer]
      exact ends_dropInPlace_of (holds (by rw [answer]; rintro ⟨⟩)) items
  | granted =>
      rw [Site.ends_allocWithIn_granted answer]
      exact slots_copied _ items

theorem ends_fromIterBuffered (yields : it.Yields items) {fuel : Nat} (fueled : items.length ≤ fuel) :
    let excuse := ¬ Room el (hinted pw it) buffer items.length ∨ ¬ Granted site el items.length
    Ends excuse (fun slice _ => slice = items.map some) (fun _ => excuse)
      (fromIterBuffered site el it buffer fuel) (.start pw α 0) := by
  intro excuse
  simp only [fromIterBuffered, ends_bind]
  refine (ends_collectVec yields .inl fueled).mono id ?_ fun _ => id
  rintro _ t ⟨rfl, made⟩
  exact ends_fromVec .inr made

/-- What can make `from_iter` panic: a claimed length that is wrong, or a request that fails. The
    slice is of the claimed length, or of the actual one; the `Vec` before it wants room for the
    hinted length, and later for what it has grown to. -/
def Excuse (site : Site pw) (el : Element pw α) (it : Iter α) (buffer : Nat → AllocOutcome)
    (items : List α) : Prop :=
  if some (it.sizeHint 0).1 = (it.sizeHint 0).2 then
    items.length ≠ (it.sizeHint 0).1 ∨ ¬ Granted site el (it.sizeHint 0).1
  else ¬ Room el (hinted pw it) buffer items.length ∨ ¬ Granted site el items.length

theorem ends_fromIter (yields : it.Yields items) {fuel : Nat} (fueled : items.length ≤ fuel) :
    Ends (Excuse site el it buffer items) (fun slice _ => slice = items.map some)
      (fun _ => Excuse site el it buffer items) (fromIter site el it buffer fuel) (.start pw α 0) := by
  have calls : (Filling.start pw α 0).source.calls = 0 := rfl
  simp only [fromIter, ends_bind, ends_get, calls]
  unfold Excuse
  split
  · exact ends_fromIterExact yields _
  · exact ends_fromIterBuffered yields fueled

/-- Collecting gives the items that were yielded, on both branches alike. -/
theorem fromIter_correct (site : Site pw) (el : Element pw α) (it : Iter α) (buffer : Nat → AllocOutcome)
    {items : List α} (yields : it.Yields items) {fuel : Nat} (fueled : items.length ≤ fuel) :
    Ends (Excuse site el it buffer items) (fun slice _ => slice = items.map some)
        (fun _ => Excuse site el it buffer items) (fromIter site el it buffer fuel)
        (.start pw α 0) ∧
      (Granted site el items.length → Room el (hinted pw it) buffer items.length →
        ∃ t t', fromIterExact site el it items.length (.start pw α 0) = .ok (items.map some) t ∧
          fromIterBuffered site el it buffer fuel (.start pw α 0) = .ok (items.map some) t') := by
  refine ⟨ends_fromIter yields fueled, fun granted room => ?_⟩
  obtain ⟨_, t, returned, rfl⟩ := (ends_fromIterExact yields items.length).returns
    fun excuse => excuse.elim (absurd rfl) (absurd granted)
  obtain ⟨_, t', returned', rfl⟩ := (ends_fromIterBuffered yields fueled).returns
    fun excuse => excuse.elim (absurd room) (absurd granted)
  exact ⟨t, t', returned, returned'⟩

/-- Two items, an end, and one item more. -/
def unfused : Iter Nat where
  next := fun calls => match calls with
    | 0 => .item 3
    | 1 => .item 5
    | 2 => .done
    | _ => .item 8
  dropPanics := fun _ => false
  sizeHint := fun calls => (2 - calls, none)

theorem unfused_yields : unfused.Yields [3, 5] where
  given := by
    intro i a found
    match i with
    | 0 | 1 => exact congrArg Next.item (Option.some.inj found)
  done := rfl
  next := by
    intro calls
    match calls with
    | 0 | 1 | 2 | _ + 3 => exact nofun
  drop := fun _ => rfl

theorem fromIter_correct_of_unfused :
    Ends (Excuse roomySite boxedElement unfused (fun _ => .granted) [3, 5])
      (fun slice _ => slice = [some 3, some 5])
      (fun _ => Excuse roomySite boxedElement unfused (fun _ => .granted) [3, 5])
      (fromIter roomySite boxedElement unfused (fun _ => .granted) 3) (.start .w64 Nat 0) :=
  (fromIter_correct roomySite boxedElement unfused (fun _ => .granted) unfused_yields
    (by decide)).1

/-- A hint that promises more than there can be overflows the capacity. -/
example : ∃ t, fromIter roomySite boxedElement
    { unfused with sizeHint := fun _ => (usizeMax .w64, none) } (fun _ => .granted) 3
    (.start .w64 Nat 0) = .error .unwinding t :=
  ⟨_, rfl⟩

end Collecting

end BiasedRc
