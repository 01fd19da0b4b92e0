import BiasedRc.Collecting
import Mathlib.Data.List.ReduceOption

/-! # The other constructors

A value that is moved in, one that a closure makes, and slices whose items are
cloned, copied or moved. Cloning draws from `iter().cloned()`, whose length is
exact, so the loop needs no `AssertExactIter` around it: it stops early only
where a `clone` panics. Whatever a constructor was given or has made itself is in
the new object when it returns, and is dropped when it unwinds.
-/

namespace BiasedRc

open Unwind

variable {pw : PointerWidth} {α : Type}

section Code

variable (site : Site pw) (el : Element pw α)

/-- `src.iter().cloned()`, by what each `clone` returns; `none` is one that panics. -/
def cloned (clones : List (Option α)) : Iter α where
  next calls :=
    match clones[calls]? with
    | some (some a) => .item a
    | some none => .panics
    | none => .done
  dropPanics _ := false
  sizeHint calls := (clones.length - calls, some (clones.length - calls))

/-- The iterations of the loop of `from_iter_exact_trusted_in` from `index` on. -/
def fillFrom (next : Code (Filling pw α) (Option α)) : Nat → Nat → Code (Filling pw α) PUnit
  | _, 0 => pure ⟨⟩
  | index, rest + 1 => do
      modify fun t => t.setGuard (t.source.initializedLen.map fun _ => index)
      match ← next with
      | none => throw .undefined
      | some item =>
          modify (·.write index item)
          fillFrom next (index + 1) rest

/-- `do_init`, for an iterator without a check of its length. -/
def doInitFrom (it : Iter α) (mayUnwind : Bool) (len : Nat) : Code (Filling pw α) PUnit := do
  modify (·.setGuard (if mayUnwind && el.needsDrop then some 0 else none))
  onUnwind (dropIter it) <| onUnwind (partialDropGuard el) do
    fillFrom (innerNext it) 0 len
    match ← innerNext it with
    | none => pure ⟨⟩
    | some item => dropItem el item
  onUnwind (partialDropGuard el) (dropIter it)
  modify (·.setGuard none)

/-- Where the value comes from. -/
inductive Constructor (α : Type) where
  /-- `Brc::new_in`, `new`, `pin_in`, `pin` and `From<T>`. -/
  | newIn (value : α)
  /-- `Brc::new_with_in` and `new_with`; `none` is a closure that panics. -/
  | newWithIn (func : Option α)
  /-- `From<&[T]>`, `From<&mut [T]>` and `clone_from_slice`. -/
  | fromSlice (clones : List (Option α))
  /-- `copy_from_slice`, and with bytes the conversions of strings. -/
  | copyFromSlice (items : List α)
  /-- `From<Vec<T>>`, `From<[T; N]>` and `From<ArrayVec<T, CAP>>`. -/
  | fromVec (items : List α)

namespace Constructor

/-- The number of elements. -/
def len : Constructor α → Nat
  | .newIn _ | .newWithIn _ => 1
  | .fromSlice clones => clones.length
  | .copyFromSlice items | .fromVec items => items.length

/-- The elements that the caller hands over. -/
def given : Constructor α → List α
  | .newIn value => [value]
  | .fromVec items => items
  | .newWithIn _ | .fromSlice _ | .copyFromSlice _ => []

/-- The elements of the new object; `none` where one of them cannot be made. -/
def contents : Constructor α → Option (List α)
  | .newIn value => some [value]
  | .newWithIn func => func.map fun value => [value]
  | .fromSlice clones => clones.mapM id
  | .copyFromSlice items | .fromVec items => some items

/-- The elements that the constructor may have to drop. -/
def values : Constructor α → List α
  | .newIn value => [value]
  | .fromSlice clones => clones.reduceOption
  | .fromVec items => items
  | .newWithIn _ | .copyFromSlice _ => []

/-- `Layout::new`, or `Layout::for_value` of the source. -/
def layout (el : Element pw α) : Constructor α → Option (Layout pw)
  | .newIn _ | .newWithIn _ => some el.layout
  | .fromSlice clones => Layout.array el.layout clones.length
  | .copyFromSlice items | .fromVec items => Layout.array el.layout items.length

/-- The call of `alloc_with_in`. -/
def allocate (layout : Layout pw) : Constructor α → Code (Filling pw α) PUnit
  | .newIn value => site.allocWithIn false layout (modify (·.write 0 value)) (dropItem el value)
  | .newWithIn none => site.allocWithIn true layout (throw .unwinding) (pure ⟨⟩)
  | .newWithIn (some value) =>
      site.allocWithIn true layout (modify fun t => (Filling.took t value).write 0 value) (pure ⟨⟩)
  | .fromSlice clones =>
      site.allocWithIn true layout (doInitFrom el (cloned clones) true clones.length)
        (dropIter (cloned clones))
  | .copyFromSlice items =>
      site.allocWithIn false layout
        (modify fun t => { t with dest := fun i => items[i]?.or (t.dest i) }) (pure ⟨⟩)
  | .fromVec items =>
      site.allocWithIn false layout
        (modify fun t => { t with dest := fun i => items[i]?.or (t.dest i) })
        (dropInPlace el (items.map some))

/-- The constructor. -/
def construct (c : Constructor α) : Code (Filling pw α) (List (Option α)) := do
  match c.layout el with
  | none => throw .undefined
  | some layout =>
      c.allocate site el layout
      return (← get).slots c.len

/-- Nothing is allocated yet, and the caller's elements are on their way. -/
def start (pw : PointerWidth) (c : Constructor α) : Filling pw α :=
  Target.start ⟨0, 0, none, c.given, []⟩

/-- Either there is no memory for the object, or no value for it. -/
def Fails (layout : Layout pw) (c : Constructor α) : Prop :=
  site.answer layout ≠ .granted ∨ c.contents = none

/-- The allocator aborts, or the destructor of an element panics in a cleanup. -/
def Aborts (layout : Layout pw) (c : Constructor α) : Prop :=
  site.answer layout = .aborts ∨
    c.Fails site layout ∧ ∃ a ∈ c.values, el.dropPanics a = true

end Constructor

/-- The object holds all elements and nothing was dropped. -/
structure Built (c : Constructor α) (slice : List (Option α)) (t : Filling pw α) : Prop where
  contents : c.contents.map (List.map some) = some slice
  dropped : t.source.dropped = []
  allocated : t.allocated = 1
  deallocated : t.deallocated = 0
  header : t.header = some (.init site.thisId, 1)

/-- All elements there were have been dropped, and the memory was given back. -/
structure GivenUp (layout : Layout pw) (c : Constructor α) (t : Filling pw α) : Prop where
  fails : c.Fails site layout
  dropped : el.needsDrop = true → t.source.dropped.Perm t.source.yielded
  deallocated : t.deallocated = t.allocated
  allocated : t.allocated ≤ 1

end Code

section Drawing

variable {site : Site pw} {el : Element pw α} {it : Iter α} {aborted : Prop}
  {unwound : Filling pw α → Prop} {t : Filling pw α} {guarded : Bool} {index : Nat}
  {header : Option (RawBrcHeader pw × BitVec 32)}

/-- `Filled`, for a loop that counts no items down. -/
structure Drawn (it : Iter α) (guarded : Bool) (header : Option (RawBrcHeader pw × BitVec 32))
    (index : Nat) (t : Filling pw α) : Prop where
  filled : ∀ rest, Filled it guarded index rest (Filling.setLen t rest)
  header : t.header = header

theorem Drawn.snoc {a : α} (drawn : Drawn it guarded header index t)
    (next : it.next index = .item a) :
    Drawn it guarded header (index + 1) (Target.write
      (Filling.took (Filling.setGuard t (t.source.initializedLen.map fun _ => index)) a) index a) where
  filled rest := (drawn.filled (rest + 1)).snoc next
  header := drawn.header

theorem Drawn.stop {len : Nat} (drawn : Drawn it guarded header index t) (inside : index < len)
    (next : ∀ a, it.next index ≠ .item a) :
    Stopped it guarded len
      (Filling.called (Filling.setGuard t (t.source.initializedLen.map fun _ => index))) := by
  have stopped := (drawn.filled (len - index - 1 + 1)).stop next
  rw [show index + (len - index - 1 + 1) = len by omega] at stopped
  exact {
    given := stopped.given
    dest := stopped.dest
    dropped := stopped.dropped
    allocated := stopped.allocated
    deallocated := stopped.deallocated
    short := stopped.short
    next := stopped.next
    guard := stopped.guard }

/-- The loop stops only where `next` panics. -/
theorem ends_fillFrom {rest : Nat} (drawn : Drawn it guarded header index t)
    (exact' : ∀ i, i < index + rest → it.next i ≠ .done) :
    Ends aborted (fun _ => Drawn it guarded header (index + rest))
      (fun t' => Stopped it guarded (index + rest) t' ∧ ∃ i, it.next i = .panics)
      (fillFrom (innerNext it) index rest) t := by
  induction rest generalizing index t with
  | zero => exact drawn
  | succ rest ih =>
      simp only [fillFrom, ends_bind, ends_modify, ends_innerNext]
      have calls : (Filling.setGuard t (t.source.initializedLen.map fun _ => index)).source.calls =
          index := (drawn.filled 0).calls
      rw [calls]
      cases next : it.next index with
      | item a =>
          have later := ih (drawn.snoc next) fun i below => exact' i (by omega)
          rwa [Nat.add_right_comm] at later
      | done => exact absurd next (exact' index (by omega))
      | panics =>
          have stops : ∀ a, it.next index ≠ .item a := by
            intro a
            rw [next]
            rintro ⟨⟩
          exact ⟨drawn.stop (by omega) stops, index, next⟩

end Drawing

section Cloning

variable {clones : List (Option α)} {items : List α}

theorem mapM_map_some (items : List α) : (items.map some).mapM id = some items := by
  induction items with
  | nil => rfl
  | cons a rest ih => simp [List.mapM_cons, ih]

theorem mapM_of_none (panics : none ∈ clones) : clones.mapM id = none := by
  induction clones with
  | nil => cases panics
  | cons clone rest ih =>
      cases clone with
      | none => rfl
      | some a => simp [List.mapM_cons, ih (by simpa using panics)]

theorem cloned_next_done : (cloned clones).next clones.length = .done := by
  simp [cloned]

theorem cloned_exact {i : Nat} (inside : i < clones.length) : (cloned clones).next i ≠ .done := by
  simp only [cloned, List.getElem?_eq_getElem inside]
  cases clones[i] <;> simp

theorem mem_of_panics {i : Nat} (panics : (cloned clones).next i = .panics) : none ∈ clones := by
  simp only [cloned] at panics
  split at panics
  · cases panics
  · exact List.mem_of_getElem? ‹_›
  · cases panics

/-- What the iterator has given was made by `clone`. -/
theorem getElem_of_gives (given : (cloned clones).Gives items) {i : Nat} {a : α}
    (found : items[i]? = some a) : clones[i]? = some (some a) := by
  have next := given i a found
  simp only [cloned] at next
  split at next
  · rw [Next.item.injEq] at next
    exact next ▸ ‹_›
  · cases next
  · cases next

theorem reduceOption_of_gives (given : (cloned clones).Gives items) :
    ∀ a ∈ items, a ∈ clones.reduceOption := by
  intro a member
  obtain ⟨i, found⟩ := List.mem_iff_getElem?.mp member
  exact List.reduceOption_mem_iff.mpr (List.mem_of_getElem? (getElem_of_gives given found))

theorem clones_of_gives (given : (cloned clones).Gives items)
    (all : items.length = clones.length) : clones = items.map some := by
  refine List.ext_getElem? fun i => ?_
  rw [List.getElem?_map]
  cases found : items[i]? with
  | some a => exact getElem_of_gives given found
  | none =>
      rw [List.getElem?_eq_none_iff] at found
      simpa [all] using found

end Cloning

section Constructors

variable {site : Site pw} {el : Element pw α} {layout : Layout pw} {c : Constructor α}
  {clones : List (Option α)} {t : Filling pw α}

/-- Without memory the call ends with the drop of the closure that was never called. -/
theorem ends_refused {mayUnwind : Bool} {func dropFunc : Code (Filling pw α) PUnit}
    {post : PUnit → Filling pw α → Prop} {aborted : Prop} {unwound : Filling pw α → Prop}
    (refused : site.answer layout ≠ .granted) (aborts : site.answer layout = .aborts → aborted)
    (drops : Ends aborted (fun _ => unwound) (fun _ => aborted) dropFunc t) :
    Ends aborted post unwound (site.allocWithIn mayUnwind layout func dropFunc) t := by
  cases answer : site.answer layout with
  | granted => exact absurd answer refused
  | aborts => exact (Site.ends_allocWithIn_aborts answer).mpr (aborts answer)
  | unwinds => exact (Site.ends_allocWithIn_unwinds answer).mpr drops

/-- The elements in slots, as the object is made. -/
theorem built_of_slots {slice : List (Option α)} (items : List α)
    (contents : c.contents = some items) (slots : t.slots c.len = items.map some)
    (same : slice = t.slots c.len) (dropped : t.source.dropped = []) (allocated : t.allocated = 1)
    (deallocated : t.deallocated = 0) (header : t.header = some (.init site.thisId, 1)) :
    Built site c slice t where
  contents := by rw [contents, Option.map_some, same, slots]
  dropped := dropped
  allocated := allocated
  deallocated := deallocated
  header := header

/-- A loop that a `clone` has stopped gives up the clones made so far. -/
theorem cleansUp_of_stopped {len : Nat} (stopped : Stopped (cloned clones) el.needsDrop len t)
    (fails : none ∈ clones) :
    CleansUp el (cloned clones) ((Constructor.fromSlice clones).Aborts site el layout)
      (fun t' => GivenUp site el layout (.fromSlice clones) t'.deallocate) t := by
  have none : (Constructor.fromSlice clones).Fails site layout := .inr (mapM_of_none fails)
  refine cleansUp stopped.covers ?_ (fun panicked => by cases panicked) fun _ _ => ?_
  · intro a member panicked
    refine .inr ⟨none, a, reduceOption_of_gives stopped.given a ?_, panicked⟩
    split at member
    · exact member
    · cases member
  · refine ⟨none, fun needsDrop => ?_, ?_, ?_⟩
    · simp only [Target.deallocate, Filling.dropItems, Target.setSource, stopped.dropped, needsDrop,
        ↓reduceIte, List.nil_append, List.Perm.refl]
    · simp only [Target.deallocate, Filling.dropItems, Target.setSource, stopped.allocated,
        stopped.deallocated]
    · simp only [Target.deallocate, Filling.dropItems, Target.setSource, stopped.allocated,
        Nat.le_refl]

theorem ends_doInitFrom :
    Ends ((Constructor.fromSlice clones).Aborts site el layout)
      (fun _ t' => Built site (.fromSlice clones) (t'.slots clones.length) t')
      (fun t' => GivenUp site el layout (.fromSlice clones) t'.deallocate)
      (doInitFrom el (cloned clones) true clones.length)
      (((Constructor.fromSlice clones).start pw).initialized site.thisId) := by
  have first : Drawn (cloned clones) el.needsDrop (some (.init site.thisId, 1)) 0
      (Filling.setGuard (((Constructor.fromSlice clones).start pw).initialized site.thisId)
        (if el.needsDrop then some 0 else none)) :=
    ⟨fun rest => filled_start, rfl⟩
  simp only [doInitFrom, ends_bind, ends_modify, ends_onUnwind, Bool.true_and]
  have filling : Ends ((Constructor.fromSlice clones).Aborts site el layout)
      (fun _ => Drawn (cloned clones) el.needsDrop (some (.init site.thisId, 1)) (0 + clones.length))
      (fun t' => Stopped (cloned clones) el.needsDrop (0 + clones.length) t' ∧
        ∃ i, (cloned clones).next i = .panics)
      (fillFrom (innerNext (cloned clones)) 0 clones.length) _ :=
    ends_fillFrom first fun i below => cloned_exact (by omega)
  rw [Nat.zero_add] at filling
  refine filling.mono id (fun _ t' drawn => ?_) ?_
  · have filled := drawn.filled 0
    rw [ends_innerNext, show t'.source.calls = clones.length from filled.calls, cloned_next_done]
    simp only [ends_pure, ends_dropIter]
    have all : clones = t'.source.yielded.map some :=
      clones_of_gives filled.given filled.length
    have slots : t'.slots clones.length = t'.source.yielded.map some := by
      have taken := filled.slots (Nat.le_of_eq filled.length.symm)
      rwa [List.take_of_length_le (Nat.le_of_eq filled.length)] at taken
    exact built_of_slots t'.source.yielded (by rw [Constructor.contents, all, mapM_map_some])
      slots rfl filled.dropped filled.allocated filled.deallocated drawn.header
  · rintro t' ⟨stopped, i, panics⟩
    exact cleansUp_of_stopped stopped (mem_of_panics panics)

theorem GivenUp.of_refused (refused : site.answer layout ≠ .granted)
    (dropped : (c.start pw).source.dropped = []) {items : List α}
    (given : items.Perm c.given) :
    GivenUp site el layout c (Filling.dropItems (c.start pw) items) where
  fails := .inl refused
  dropped _ := by
    simp only [Filling.dropItems, Target.setSource, dropped, List.nil_append]
    exact given
  deallocated := rfl
  allocated := Nat.zero_le 1

/-- The call of `alloc_with_in` in each constructor. -/
theorem ends_allocate (c : Constructor α) :
    Ends (c.Aborts site el layout) (fun _ t => Built site c (t.slots c.len) t)
      (GivenUp site el layout c) (c.allocate site el layout) (c.start pw) := by
  by_cases granted : site.answer layout = .granted
  · cases c with
    | newIn value =>
        rw [Constructor.allocate, Site.ends_allocWithIn_granted granted, ends_modify]
        exact built_of_slots [value] rfl rfl rfl rfl rfl rfl rfl
    | newWithIn func =>
        cases func with
        | none =>
            rw [Constructor.allocate, Site.ends_allocWithIn_granted granted, ends_unwinding]
            exact ⟨.inr rfl, fun _ => .refl _, rfl, Nat.le_refl 1⟩
        | some value =>
            rw [Constructor.allocate, Site.ends_allocWithIn_granted granted, ends_modify]
            exact built_of_slots [value] rfl rfl rfl rfl rfl rfl rfl
    | fromSlice clones =>
        rw [Constructor.allocate, Site.ends_allocWithIn_granted granted]
        exact ends_doInitFrom
    | copyFromSlice items | fromVec items =>
        rw [Constructor.allocate, Site.ends_allocWithIn_granted granted, ends_modify]
        exact built_of_slots items rfl (slots_copied _ items) rfl rfl rfl rfl rfl
  · have aborts (stops : site.answer layout = .aborts) : c.Aborts site el layout := .inl stops
    cases c with
    | newIn value =>
        refine ends_refused granted aborts ?_
        rw [ends_dropItem]
        split
        · exact .inr ⟨.inl granted, value, .head _, ‹_›⟩
        · exact .of_refused granted rfl (.refl _)
    | newWithIn func =>
        cases func <;> exact ends_refused granted aborts (GivenUp.of_refused granted rfl (.refl []))
    | fromSlice clones =>
        refine ends_refused granted aborts ?_
        rw [ends_dropIter]
        exact GivenUp.of_refused granted rfl (.refl [])
    | copyFromSlice items =>
        exact ends_refused granted aborts (GivenUp.of_refused granted rfl (.refl []))
    | fromVec items =>
        refine ends_refused granted aborts (ends_dropInPlace ?_ fun _ => ?_)
        · exact fun a member panicked => .inr ⟨.inl granted, a, member, panicked⟩
        · exact .of_refused granted rfl (.refl items)

/-- A constructor returns the object with all its elements, unless there is no memory or no value;
    then it unwinds with everything dropped and given back, or a cleanup aborts. -/
theorem constructors_sound (site : Site pw) (el : Element pw α) (c : Constructor α)
    (sized : c.layout el = some layout) :
    Ends (c.Aborts site el layout) (Built site c) (GivenUp site el layout c)
      (c.construct site el) (c.start pw) := by
  simp only [Constructor.construct, sized, ends_bind, ends_get, ends_pure]
  exact ends_allocate c

/-- The second of three clones panics. -/
theorem constructors_sound_of_panic :
    Ends False (fun _ _ => False) (fun t => t.source.dropped.Perm t.source.yielded)
      ((Constructor.fromSlice [some 3, none, some 5]).construct roomySite boxedElement)
      ((Constructor.fromSlice [some 3, none, some 5]).start .w64) := by
  have sized : (Constructor.fromSlice [some 3, none, some 5]).layout boxedElement =
      some ⟨24, 8, ⟨3, rfl⟩, by decide⟩ := rfl
  refine (constructors_sound roomySite boxedElement _ sized).mono ?_ ?_ ?_
  · rintro (aborts | ⟨_, a, _, panics⟩)
    · revert aborts
      decide
    · cases panics
  · intro slice t built
    cases built.contents
  · exact fun t givenUp => givenUp.dropped rfl

end Constructors

end BiasedRc
