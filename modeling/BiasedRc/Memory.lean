import BiasedRc.Lib.Transition
import BiasedRc.Pointees

/-! # Objects in memory

The allocator hands out blocks that are apart from all blocks in use. References
to an object are copied and unsized, and their pointers are all that is left to
tell objects apart and to give a block back, also from a merge queue. An object
is named here next to its references only to say which object they should find.
-/

namespace BiasedRc

open Transition System

deriving instance DecidableEq for Layout

deriving instance DecidableEq for Block

/-- A block that an object was allocated in. -/
structure Allocation (pw : PointerWidth) where
  alloc : Layout pw
  header : Layout pw
  ofHeader : Layout.brcHeader alloc = some header
  /-- The layout of the value. -/
  layout : Layout pw
  info : LayoutInfo pw
  made : LayoutInfo.new header layout = some info
  address : Nat
  aligned : info.fullLayout.align ∣ address

namespace Allocation

variable {pw : PointerWidth}

def block (a : Allocation pw) : Block pw := ⟨a.address, a.info.fullLayout⟩

/-- What `alloc_with_in` asks for, at the address that the allocator answers with. -/
def make (alloc layout : Layout pw) (address : Nat) : Option (Allocation pw) :=
  match ofHeader : Layout.brcHeader alloc with
  | none => none
  | some header =>
      match made : LayoutInfo.new header layout with
      | none => none
      | some info =>
          if aligned : info.fullLayout.align ∣ address then
            some { alloc, header, ofHeader, layout, info, made, address, aligned }
          else none

theorem make_eq_some {alloc layout : Layout pw} {address : Nat} {a : Allocation pw}
    (made : make alloc layout address = some a) :
    a.alloc = alloc ∧ a.layout = layout ∧ a.address = address := by
  unfold make at made
  split at made
  · cases made
  · split at made
    · cases made
    · split at made
      · cases made
        exact ⟨rfl, rfl, rfl⟩
      · cases made

/-- The blocks do not overlap. -/
def Apart (a b : Allocation pw) : Prop :=
  a.address + a.info.fullLayout.size ≤ b.address ∨ b.address + b.info.fullLayout.size ≤ a.address

theorem Apart.symm {a b : Allocation pw} (apart : a.Apart b) : b.Apart a := Or.symm apart

def valueAddress (a : Allocation pw) : Int := a.address + a.info.valueOffset

theorem geometry (a : Allocation pw) :
    LayoutInfo.Geometry a.header a.layout a.info a.address :=
  LayoutInfo.geometry a.made a.aligned

/-- A value never lies where another block begins, not even a value of no size at the end of
    its own. -/
theorem Apart.valueAddress_ne {a b : Allocation pw} (apart : a.Apart b) :
    a.valueAddress ≠ b.valueAddress := by
  have positive := Layout.brcHeader_size_pos a.ofHeader
  have positive' := Layout.brcHeader_size_pos b.ofHeader
  have before := a.geometry.disjoint
  have inside := a.geometry.inside
  have before' := b.geometry.disjoint
  have inside' := b.geometry.inside
  unfold Apart at apart
  unfold valueAddress
  omega

end Allocation

/-- The reference is to the value in this block, whatever type it is read with. -/
structure Reference.PointsTo {pw : PointerWidth} (r : Reference pw) (a : Allocation pw) : Prop where
  alloc : r.alloc = a.alloc
  layout : r.pointee.layoutForValue r.metadata = some a.layout
  address : r.address = a.valueAddress

namespace Reference.PointsTo

variable {pw : PointerWidth} {r : Reference pw} {a : Allocation pw}

theorem layout_eq (points : r.PointsTo a) : r.layout = some a.info := by
  simp only [Reference.layout, points.alloc, points.layout, a.ofHeader, a.made, bind, Option.bind_some]

theorem header_eq (points : r.PointsTo a) : r.header = some (a.address : Int) := by
  have found := a.geometry.headerFound
  simp only [Reference.header, points.layout_eq, points.address, Allocation.valueAddress, found, bind,
    Option.bind_some, pure]

/-- Through the context and back, the block is the one that was asked for. -/
theorem erasedDealloc_eq (points : r.PointsTo a) :
    erasedDealloc r.alloc r.pointee a.address (r.pointee.toContext r.metadata) a.info.valueOffset =
      some a.block := by
  simp only [erasedDealloc, Pointee.fromContext_toContext, points.alloc, points.layout, a.ofHeader,
    a.made, bind, Option.bind_some, guard, if_true, pure, Allocation.block]

theorem dealloc_eq (points : r.PointsTo a) : r.dealloc = some a.block := by
  simp only [Reference.dealloc, points.header_eq, points.layout_eq, bind, Option.bind_some]
  exact points.erasedDealloc_eq

theorem erase_eq (points : r.PointsTo a) :
    ∃ entry, r.erase = some entry ∧ entry.dealloc = some a.block := by
  simp only [Reference.erase, points.header_eq, points.layout_eq, bind, Option.bind_some, pure,
    Option.some.injEq, exists_eq_left']
  exact points.erasedDealloc_eq

theorem dropWeak_eq (points : r.PointsTo a) : r.dropWeak = some a.block := by
  have found := a.geometry.headerFound
  simp only [Reference.dropWeak, weakLayoutInfo, Pointee.layoutForPtr_eq, points.alloc, points.layout,
    a.ofHeader, a.made, points.address, Allocation.valueAddress, found, bind, Option.bind_some, pure,
    Allocation.block]

theorem isReal (points : r.PointsTo a) : r.isReal = true := by
  simp only [Reference.isReal, points.address, Allocation.valueAddress, reservedAddress,
    decide_eq_true_eq]
  exact a.geometry.notReserved

theorem unsizes (points : r.PointsTo a) {U : Pointee pw} {metadata : U.Metadata}
    (unsizes : r.pointee.Unsizes r.metadata U metadata) :
    ({ r with pointee := U, metadata } : Reference pw).PointsTo a where
  alloc := points.alloc
  layout := unsizes.layoutForValue.trans points.layout
  address := points.address

end Reference.PointsTo

/-- Blocks in use, the references to objects and the entries of merge queues. -/
structure Memory (pw : PointerWidth) (Oid Rid Qid : Type) where
  objects : Oid → Option (Allocation pw)
  references : Rid → Option (Oid × Reference pw)
  entries : Qid → Option (Oid × QueuedObject pw)

/-- What happens to references. -/
inductive Use (pw : PointerWidth) (Oid Rid Qid : Type) where
  /-- `alloc_with_in` for a value of this type, given this address. -/
  | allocate (o : Oid) (h : Rid) (alloc : Layout pw) (T : Pointee pw) (metadata : T.Metadata)
      (address : Nat)
  /-- Clones, `downgrade`, `upgrade`, and `from_raw` of a raw pointer. -/
  | copy (h h' : Rid)
  | unsize (h : Rid) (U : Pointee pw) (metadata : U.Metadata)
  /-- A drop that frees nothing. -/
  | drop (h : Rid)
  /-- A drop that queues the object. -/
  | queue (h : Rid) (q : Qid)
  /-- A merge that finds references left. -/
  | merge (q : Qid)
  /-- A drop, a merge and a drop of a `Weak` that free the block. -/
  | dealloc (h : Rid)
  | deallocQueued (q : Qid)
  | dropWeak (h : Rid)

namespace Memory

variable {pw : PointerWidth} {Oid Rid Qid : Type} [DecidableEq Oid] [DecidableEq Rid]
  [DecidableEq Qid]

def initial : Memory pw Oid Rid Qid where
  objects := fun _ => none
  references := fun _ => none
  entries := fun _ => none

def setReference (m : Memory pw Oid Rid Qid) (h : Rid) (r : Option (Oid × Reference pw)) :
    Memory pw Oid Rid Qid :=
  { m with references := Function.update m.references h r }

def setEntry (m : Memory pw Oid Rid Qid) (q : Qid) (e : Option (Oid × QueuedObject pw)) :
    Memory pw Oid Rid Qid :=
  { m with entries := Function.update m.entries q e }

def setObject (m : Memory pw Oid Rid Qid) (o : Oid) (a : Option (Allocation pw)) :
    Memory pw Oid Rid Qid :=
  { m with objects := Function.update m.objects o a }

/-- `Allocator::deallocate`, which is undefined for anything but the block in use. -/
def deallocate (m : Memory pw Oid Rid Qid) (o : Oid) (block : Block pw) :
    Option (Memory pw Oid Rid Qid) :=
  if (m.objects o).map Allocation.block = some block then some (m.setObject o none) else none

/-- No reference but `h` and no entry but `q` is left of the object. -/
structure Last (m : Memory pw Oid Rid Qid) (o : Oid) (h : Option Rid) (q : Option Qid) : Prop where
  references : ∀ h' r, m.references h' = some (o, r) → some h' = h
  entries : ∀ q' e, m.entries q' = some (o, e) → some q' = q

/-- The block is apart from all others, and is freed with the last of the references. -/
def enabled (m : Memory pw Oid Rid Qid) : Use pw Oid Rid Qid → Prop
  | .allocate o h alloc T metadata address => m.objects o = none ∧ m.references h = none ∧
      ∃ layout a, T.layoutForValue metadata = some layout ∧
        Allocation.make alloc layout address = some a ∧ ∀ o' b, m.objects o' = some b → a.Apart b
  | .copy h h' => (∃ o r, m.references h = some (o, r)) ∧ m.references h' = none
  | .unsize h U metadata => ∃ o r, m.references h = some (o, r) ∧
      r.pointee.Unsizes r.metadata U metadata
  | .drop h => ∃ o r, m.references h = some (o, r)
  | .queue h q => (∃ o r, m.references h = some (o, r)) ∧ m.entries q = none
  | .merge q => ∃ o e, m.entries q = some (o, e)
  | .dealloc h | .dropWeak h => ∃ o r, m.references h = some (o, r) ∧ m.Last o (some h) none
  | .deallocQueued q => ∃ o e, m.entries q = some (o, e) ∧ m.Last o none (some q)

/-- `none` is undefined behaviour. -/
def run (m : Memory pw Oid Rid Qid) : Use pw Oid Rid Qid → Option (Memory pw Oid Rid Qid)
  | .allocate o h alloc T metadata address => do
      let a ← Allocation.make alloc (← T.layoutForValue metadata) address
      let value := { alloc, pointee := T, address := a.valueAddress, metadata }
      return (m.setObject o (some a)).setReference h (some (o, value))
  | .copy h h' => do
      let (o, r) ← m.references h
      return m.setReference h' (some (o, r))
  | .unsize h U metadata => do
      let (o, r) ← m.references h
      return m.setReference h (some (o, { r with pointee := U, metadata }))
  | .drop h => return m.setReference h none
  | .queue h q => do
      let (o, r) ← m.references h
      let entry ← r.erase
      return (m.setReference h none).setEntry q (some (o, entry))
  | .merge q => return m.setEntry q none
  | .dealloc h => do
      let (o, r) ← m.references h
      (m.setReference h none).deallocate o (← r.dealloc)
  | .deallocQueued q => do
      let (o, entry) ← m.entries q
      (m.setEntry q none).deallocate o (← entry.dealloc)
  | .dropWeak h => do
      let (o, r) ← m.references h
      (m.setReference h none).deallocate o (← r.dropWeak)

theorem run_allocate {m : Memory pw Oid Rid Qid} {o : Oid} {h : Rid} {alloc layout : Layout pw}
    {T : Pointee pw} {metadata : T.Metadata} {address : Nat} {a : Allocation pw}
    (sized : T.layoutForValue metadata = some layout)
    (made : Allocation.make alloc layout address = some a) :
    m.run (.allocate o h alloc T metadata address) = some ((m.setObject o (some a)).setReference h
      (some (o, { alloc, pointee := T, address := a.valueAddress, metadata }))) := by
  simp only [run, sized, made, bind, Option.bind_some, pure]

/-- References point to their objects, and entries free the blocks of theirs. -/
structure Inv (m : Memory pw Oid Rid Qid) : Prop where
  references : ∀ h o r, m.references h = some (o, r) → ∃ a, m.objects o = some a ∧ r.PointsTo a
  entries : ∀ q o e, m.entries q = some (o, e) → ∃ a, m.objects o = some a ∧ e.dealloc = some a.block
  apart : ∀ o o' a a', o ≠ o' → m.objects o = some a → m.objects o' = some a' → a.Apart a'

namespace Inv

variable {m : Memory pw Oid Rid Qid} {o : Oid} {h : Rid} {q : Qid} {a : Allocation pw}

omit [DecidableEq Oid] [DecidableEq Rid] [DecidableEq Qid] in
theorem initial : (initial : Memory pw Oid Rid Qid).Inv where
  references := nofun
  entries := nofun
  apart := nofun

omit [DecidableEq Oid] [DecidableEq Qid] in
theorem setReference (inv : m.Inv) (reference : Option (Oid × Reference pw))
    (points : ∀ o r, reference = some (o, r) → ∃ a, m.objects o = some a ∧ r.PointsTo a) :
    (m.setReference h reference).Inv where
  references h' o r found := by
    simp only [Memory.setReference] at found ⊢
    by_cases same : h' = h
    · rw [same, Function.update_self] at found
      exact points o r found
    · rw [Function.update_of_ne same] at found
      exact inv.references h' o r found
  entries := inv.entries
  apart := inv.apart

omit [DecidableEq Oid] [DecidableEq Rid] in
theorem setEntry (inv : m.Inv) (entry : Option (Oid × QueuedObject pw))
    (frees : ∀ o e, entry = some (o, e) → ∃ a, m.objects o = some a ∧ e.dealloc = some a.block) :
    (m.setEntry q entry).Inv where
  references := inv.references
  entries q' o e found := by
    simp only [Memory.setEntry] at found ⊢
    by_cases same : q' = q
    · rw [same, Function.update_self] at found
      exact frees o e found
    · rw [Function.update_of_ne same] at found
      exact inv.entries q' o e found
  apart := inv.apart

omit [DecidableEq Rid] [DecidableEq Qid] in
/-- A block apart from the others comes into use. -/
theorem allocate (inv : m.Inv) (free : m.objects o = none)
    (apart : ∀ o' b, m.objects o' = some b → a.Apart b) : (m.setObject o (some a)).Inv := by
  have kept : ∀ o' b, m.objects o' = some b → (m.setObject o (some a)).objects o' = some b := by
    intro o' b found
    have different : o' ≠ o := by
      rintro rfl
      rw [free] at found
      cases found
    exact (Function.update_of_ne different ..).trans found
  have cases : ∀ o' b, (m.setObject o (some a)).objects o' = some b →
      (o' = o ∧ b = a) ∨ (o' ≠ o ∧ m.objects o' = some b) := by
    intro o' b found
    simp only [setObject] at found
    by_cases same : o' = o
    · rw [same, Function.update_self, Option.some.injEq] at found
      exact .inl ⟨same, found.symm⟩
    · rw [Function.update_of_ne same] at found
      exact .inr ⟨same, found⟩
  constructor
  · intro h o' r found
    obtain ⟨b, used, points⟩ := inv.references h o' r found
    exact ⟨b, kept o' b used, points⟩
  · intro q o' e found
    obtain ⟨b, used, frees⟩ := inv.entries q o' e found
    exact ⟨b, kept o' b used, frees⟩
  · intro o₁ o₂ a₁ a₂ different found₁ found₂
    rcases cases o₁ a₁ found₁ with ⟨rfl, rfl⟩ | ⟨_, used₁⟩ <;>
      rcases cases o₂ a₂ found₂ with ⟨rfl, rfl⟩ | ⟨_, used₂⟩
    · exact absurd rfl different
    · exact apart o₂ a₂ used₂
    · exact (apart o₁ a₁ used₁).symm
    · exact inv.apart o₁ o₂ a₁ a₂ different used₁ used₂

omit [DecidableEq Rid] [DecidableEq Qid] in
/-- The block that is given back is the one in use, and nothing refers to it any more. -/
theorem deallocate (inv : m.Inv) (used : m.objects o = some a) (last : m.Last o none none) :
    ∃ m', m.deallocate o a.block = some m' ∧ m'.Inv := by
  refine ⟨m.setObject o none, by simp [Memory.deallocate, used], ?_⟩
  have kept : ∀ o' b, o' ≠ o → m.objects o' = some b → (m.setObject o none).objects o' = some b :=
    fun o' b different found => (Function.update_of_ne different ..).trans found
  have cases : ∀ o' b, (m.setObject o none).objects o' = some b → m.objects o' = some b := by
    intro o' b found
    simp only [setObject] at found
    by_cases same : o' = o
    · rw [same, Function.update_self] at found
      cases found
    · rwa [Function.update_of_ne same] at found
  constructor
  · intro h o' r found
    obtain ⟨b, there, points⟩ := inv.references h o' r found
    refine ⟨b, kept o' b ?_ there, points⟩
    rintro rfl
    cases last.references h r found
  · intro q o' e found
    obtain ⟨b, there, frees⟩ := inv.entries q o' e found
    refine ⟨b, kept o' b ?_ there, frees⟩
    rintro rfl
    cases last.entries q e found
  · intro o₁ o₂ a₁ a₂ different found₁ found₂
    exact inv.apart o₁ o₂ a₁ a₂ different (cases o₁ a₁ found₁) (cases o₂ a₂ found₂)

omit [DecidableEq Oid] [DecidableEq Qid] in
theorem last_of_reference {m : Memory pw Oid Rid Qid} (last : m.Last o (some h) none) :
    (m.setReference h none).Last o none none where
  references h' r found := by
    simp only [Memory.setReference] at found
    by_cases same : h' = h
    · rw [same, Function.update_self] at found
      cases found
    · rw [Function.update_of_ne same] at found
      exact absurd (Option.some.inj (last.references h' r found)) same
  entries := last.entries

omit [DecidableEq Oid] [DecidableEq Rid] in
theorem last_of_entry {m : Memory pw Oid Rid Qid} (last : m.Last o none (some q)) :
    (m.setEntry q none).Last o none none where
  references := last.references
  entries q' e found := by
    simp only [Memory.setEntry] at found
    by_cases same : q' = q
    · rw [same, Function.update_self] at found
      cases found
    · rw [Function.update_of_ne same] at found
      exact absurd (Option.some.inj (last.entries q' e found)) same

/-- Nothing that may happen is undefined. -/
theorem run (inv : m.Inv) {use : Use pw Oid Rid Qid} (enabled : m.enabled use) :
    ∃ m', m.run use = some m' ∧ m'.Inv := by
  cases use with
  | allocate o h alloc T metadata address =>
      obtain ⟨free, _, layout, a, sized, made, apart⟩ := enabled
      refine ⟨_, run_allocate sized made, ?_⟩
      obtain ⟨sameAlloc, sameLayout, _⟩ := Allocation.make_eq_some made
      refine (inv.allocate free apart).setReference _ ?_
      rintro _ _ ⟨⟩
      exact ⟨a, Function.update_self .., sameAlloc.symm, sized.trans (congrArg some sameLayout.symm), rfl⟩
  | copy h h' =>
      obtain ⟨⟨o, r, found⟩, _⟩ := enabled
      simp only [Memory.run, found, bind, Option.bind_some, pure, Option.some.injEq, exists_eq_left']
      refine inv.setReference _ ?_
      rintro _ _ ⟨⟩
      exact inv.references h o r found
  | unsize h U metadata =>
      obtain ⟨o, r, found, unsizes⟩ := enabled
      simp only [Memory.run, found, bind, Option.bind_some, pure, Option.some.injEq, exists_eq_left']
      refine inv.setReference _ ?_
      rintro _ _ ⟨⟩
      obtain ⟨a, used, points⟩ := inv.references h o r found
      exact ⟨a, used, points.unsizes unsizes⟩
  | drop h => exact ⟨_, rfl, inv.setReference none nofun⟩
  | queue h q =>
      obtain ⟨⟨o, r, found⟩, _⟩ := enabled
      obtain ⟨a, used, points⟩ := inv.references h o r found
      obtain ⟨entry, erased, frees⟩ := points.erase_eq
      simp only [Memory.run, found, erased, bind, Option.bind_some, pure, Option.some.injEq,
        exists_eq_left']
      refine (inv.setReference none nofun).setEntry _ ?_
      rintro _ _ ⟨⟩
      exact ⟨a, used, frees⟩
  | merge q => exact ⟨_, rfl, inv.setEntry none nofun⟩
  | dealloc h =>
      obtain ⟨o, r, found, last⟩ := enabled
      obtain ⟨a, used, points⟩ := inv.references h o r found
      simp only [Memory.run, found, points.dealloc_eq, bind, Option.bind_some]
      exact (inv.setReference none nofun).deallocate used (last_of_reference last)
  | deallocQueued q =>
      obtain ⟨o, e, found, last⟩ := enabled
      obtain ⟨a, used, frees⟩ := inv.entries q o e found
      simp only [Memory.run, found, frees, bind, Option.bind_some]
      exact (inv.setEntry none nofun).deallocate used (last_of_entry last)
  | dropWeak h =>
      obtain ⟨o, r, found, last⟩ := enabled
      obtain ⟨a, used, points⟩ := inv.references h o r found
      simp only [Memory.run, found, points.dropWeak_eq, bind, Option.bind_some]
      exact (inv.setReference none nofun).deallocate used (last_of_reference last)

end Inv

end Memory

/-- All runs from the start of the process. -/
def memories (pw : PointerWidth) (Oid Rid Qid : Type) [DecidableEq Oid] [DecidableEq Rid]
    [DecidableEq Qid] : System (Memory pw Oid Rid Qid) (Use pw Oid Rid Qid) where
  start m := m = .initial
  step m use m' := m.enabled use ∧ m.run use = some m'

variable {pw : PointerWidth} {Oid Rid Qid : Type} [DecidableEq Oid]

theorem memories_step_allocate [DecidableEq Qid] [DecidableEq Rid] {m : Memory pw Oid Rid Qid}
    {o : Oid} {h : Rid}
    {alloc layout : Layout pw} {T : Pointee pw} {metadata : T.Metadata} {address : Nat}
    {a : Allocation pw} (free : m.objects o = none) (unused : m.references h = none)
    (sized : T.layoutForValue metadata = some layout)
    (made : Allocation.make alloc layout address = some a)
    (apart : ∀ o' b, m.objects o' = some b → a.Apart b) :
    (memories pw Oid Rid Qid).step m (.allocate o h alloc T metadata address)
      ((m.setObject o (some a)).setReference h
        (some (o, { alloc, pointee := T, address := a.valueAddress, metadata }))) :=
  ⟨⟨free, unused, layout, a, sized, made, apart⟩, Memory.run_allocate sized made⟩

/-- What can be read off the pointers alone. -/
structure Memory.Sound (m : Memory pw Oid Rid Qid) : Prop where
  ptrEq : ∀ {h h' o o' r r'}, m.references h = some (o, r) → m.references h' = some (o', r') →
    (r.ptrEq r' = true ↔ o = o')
  isReal : ∀ {h o r}, m.references h = some (o, r) → r.isReal = true
  header : ∀ {h o r}, m.references h = some (o, r) →
    (m.objects o).map (fun a => (a.address : Int)) = r.header ∧ r.header.isSome = true

theorem Memory.Inv.sound {m : Memory pw Oid Rid Qid} (inv : m.Inv) : m.Sound where
  ptrEq {h h' o o' r r'} found found' := by
    obtain ⟨a, used, points⟩ := inv.references h o r found
    obtain ⟨a', used', points'⟩ := inv.references h' o' r' found'
    simp only [Reference.ptrEq, points.address, points'.address, decide_eq_true_eq]
    constructor
    · intro same
      by_contra different
      exact (inv.apart o o' a a' different used used').valueAddress_ne same
    · rintro rfl
      rw [Option.some.inj (used.symm.trans used')]
  isReal {h o r} found := by
    obtain ⟨a, _, points⟩ := inv.references h o r found
    exact points.isReal
  header {h o r} found := by
    obtain ⟨a, used, points⟩ := inv.references h o r found
    simp only [used, points.header_eq, Option.map_some, Option.isSome_some, and_self]

/-- References are told apart by their addresses exactly when their objects are, and every
    block is given back as it was handed out, whichever reference or queue entry frees it. -/
theorem references_sound [DecidableEq Qid] [DecidableEq Rid] {m : Memory pw Oid Rid Qid}
    (reached : (memories pw Oid Rid Qid).Reachable m) :
    m.Sound ∧ ∀ use, m.enabled use → ∃ m', m.run use = some m' := by
  have inv : m.Inv := by
    refine reached.invariant (P := Memory.Inv) ?_ ?_
    · rintro _ rfl
      exact .initial
    · rintro m use m' inv ⟨enabled, ran⟩
      obtain ⟨after, result, kept⟩ := inv.run enabled
      exact Option.some.inj (result.symm.trans ran) ▸ kept
  refine ⟨inv.sound, ?_⟩
  intro use enabled
  obtain ⟨m', ran, _⟩ := inv.run enabled
  exact ⟨m', ran⟩

theorem zero_fits : Align.roundUp 0 1 ≤ isizeMax .w64 := by decide

/-- `Layout::new::<()>()`, and that of the global allocator. -/
def zeroSized : Layout .w64 := ⟨0, 1, Nat.isPowerOfTwo_one, zero_fits⟩

/-- A value of no size lies at the very end of its block, where the next block begins. -/
theorem references_sound_at_edge :
    ∃ (m : Memory .w64 (Fin 2) (Fin 2) (Fin 1)) (r r' : Reference .w64),
      m.references 0 = some (0, r) ∧ m.references 1 = some (1, r') ∧
        r'.header = some r.address ∧ r.ptrEq r' = false := by
  obtain ⟨a, made, first, size, offset⟩ : ∃ a ∈ Allocation.make zeroSized zeroSized 4096,
      a.address = 4096 ∧ a.info.fullLayout.size = 24 ∧ a.info.valueOffset = 24 := by decide +kernel
  obtain ⟨b, made', second⟩ : ∃ b ∈ Allocation.make zeroSized zeroSized 4120, b.address = 4120 := by
    decide +kernel
  let r (a : Allocation .w64) : Reference .w64 := ⟨zeroSized, .sized zeroSized, a.valueAddress, ()⟩
  let m : Memory .w64 (Fin 2) (Fin 2) (Fin 1) :=
    (Memory.initial.setObject 0 (some a)).setReference 0 (some (0, r a))
  let m' := (m.setObject 1 (some b)).setReference 1 (some (1, r b))
  have apart : ∀ o a', m.objects o = some a' → b.Apart a' := by
    intro o a' used
    by_cases same : o = 0
    · subst same
      obtain rfl : a = a' := Option.some.inj used
      exact .inr (by omega)
    · exact nomatch (Function.update_of_ne same ..).symm.trans used
  have start : (memories .w64 (Fin 2) (Fin 2) (Fin 1)).Reachable .initial := .start rfl
  have one : (memories .w64 (Fin 2) (Fin 2) (Fin 1)).Reachable m :=
    start.step (memories_step_allocate rfl rfl rfl made nofun)
  have two : (memories .w64 (Fin 2) (Fin 2) (Fin 1)).Reachable m' :=
    one.step (memories_step_allocate rfl rfl rfl made' apart)
  have sound := (references_sound two).1
  refine ⟨m', r a, r b, rfl, rfl, ?_, ?_⟩
  · have header : some (b.address : Int) = (r b).header := (sound.header (h := 1) rfl).1
    rw [← header, second]
    simp only [r, Allocation.valueAddress, first, offset]
    rfl
  · refine Bool.eq_false_iff.mpr fun same => ?_
    have first : m'.references 0 = some (0, r a) := rfl
    have second : m'.references 1 = some (1, r b) := rfl
    cases (sound.ptrEq first second).mp same

end BiasedRc
