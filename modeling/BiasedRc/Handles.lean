import BiasedRc.DestructorInvariant
import BiasedRc.Unwrapping

/-! # Programs over handles

A program keeps its handles in variables and reaches values only through them:
it reads through `deref`, writes through the reference that `get_mut` or
`make_mut` returns, and moves values out with `try_unwrap`. Raw pointers from
`into_raw` are variables too, since they still own a reference. A handle that is
forgotten leaves its variable but stays counted.
-/

namespace BiasedRc

open Tally Outcome

/-- What a variable of some thread holds. -/
inductive Binding (Tid Oid : Type) where
  | brc (t : Tid) (o : Oid)
  /-- The result of `Brc::into_raw`. -/
  | raw (t : Tid) (o : Oid)
  | weak (t : Tid) (o : Oid)
  deriving DecidableEq

/-- What a statement returns to the program. -/
inductive Reply (Val : Type) where
  | done
  | refused
  | value (v : Val)
  deriving DecidableEq

/-- The statements of a program. Each names the thread that runs it and the object its
    variable points to; `panicking` is the flag of its implicit collections. -/
inductive Statement (Tid Oid Var Val : Type) where
  | new (h : Var) (t : Tid) (o : Oid) (v : Val) (panicking : Bool)
  | clone (h h' : Var) (t : Tid) (o : Oid) (panicking : Bool)
  | cloneNoCollect (h h' : Var) (t : Tid) (o : Oid)
  | cloneShared (h h' : Var) (t : Tid) (o : Oid)
  | drop (h : Var) (t : Tid) (o : Oid) (panicking : Bool)
  | dropNoCollect (h : Var) (t : Tid) (o : Oid)
  | downgrade (h h' : Var) (t : Tid) (o : Oid)
  | upgrade (h h' : Var) (t : Tid) (o : Oid)
  | cloneWeak (h h' : Var) (t : Tid) (o : Oid)
  | dropWeak (h : Var) (t : Tid) (o : Oid)
  | deref (h : Var) (t : Tid) (o : Oid)
  /-- Write this value through `Brc::get_mut`, if it returns a reference. -/
  | getMut (h : Var) (t : Tid) (o : Oid) (v : Val)
  /-- Write this value through `Brc::make_mut`, which may allocate at `o'`. -/
  | makeMut (h : Var) (t : Tid) (o o' : Oid) (v : Val) (panicking : Bool)
  | tryUnwrap (h : Var) (t : Tid) (o : Oid)
  | intoInner (h : Var) (t : Tid) (o : Oid) (panicking : Bool)
  | intoRaw (h : Var) (t : Tid) (o : Oid)
  | fromRaw (h : Var) (t : Tid) (o : Oid)
  | incrementStrongCount (h h' : Var) (t : Tid) (o : Oid)
  | decrementStrongCount (h : Var) (t : Tid) (o : Oid)
  | forget (h : Var) (t : Tid) (o : Oid)
  | send (h : Var) (t t' : Tid) (o : Oid)
  | sendWeak (h : Var) (t t' : Tid) (o : Oid)
  | collect (t : Tid) (panicking : Bool)
  | collectForce (t : Tid)
  | threadDeath (t : Tid)
  deriving DecidableEq

/-- The process, what its values hold and its variables. -/
structure Store (pw : PointerWidth) (Tid Oid Var Val : Type) where
  world : World pw Tid Oid
  contents : Oid → Option Val
  bindings : Var → Option (Binding Tid Oid)

namespace Store

variable {pw : PointerWidth} {Tid Oid Var Val : Type} [DecidableEq Tid] [DecidableEq Oid]
  [DecidableEq Var]

def initial : Store pw Tid Oid Var Val where
  world := .initial
  contents := fun _ => none
  bindings := fun _ => none

def setWorld (s : Store pw Tid Oid Var Val) (w : World pw Tid Oid) : Store pw Tid Oid Var Val :=
  { s with world := w }

/-- Write a value through a reference to it. -/
def write (s : Store pw Tid Oid Var Val) (o : Oid) (v : Val) : Store pw Tid Oid Var Val :=
  { s with contents := Function.update s.contents o (some v) }

def assign (s : Store pw Tid Oid Var Val) (h : Var) (binding : Option (Binding Tid Oid)) :
    Store pw Tid Oid Var Val :=
  { s with bindings := Function.update s.bindings h binding }

def enabled (s : Store pw Tid Oid Var Val) : Statement Tid Oid Var Val → Prop
  | .new h _ o _ _ => s.bindings h = none ∧ s.world.objects o = none
  | .clone h h' t o _ | .cloneNoCollect h h' t o | .cloneShared h h' t o | .downgrade h h' t o =>
      s.bindings h = some (.brc t o) ∧ s.bindings h' = none
  | .upgrade h h' t o | .cloneWeak h h' t o =>
      s.bindings h = some (.weak t o) ∧ s.bindings h' = none
  | .incrementStrongCount h h' t o => s.bindings h = some (.raw t o) ∧ s.bindings h' = none
  | .drop h t o _ | .dropNoCollect h t o | .deref h t o | .getMut h t o _ | .tryUnwrap h t o
  | .intoInner h t o _ | .intoRaw h t o | .forget h t o | .send h t _ o =>
      s.bindings h = some (.brc t o)
  | .makeMut h t o o' _ _ => s.bindings h = some (.brc t o) ∧ s.world.objects o' = none
  | .dropWeak h t o | .sendWeak h t _ o => s.bindings h = some (.weak t o)
  | .fromRaw h t o | .decrementStrongCount h t o => s.bindings h = some (.raw t o)
  | .collect _ _ | .collectForce _ | .threadDeath _ => True

instance (s : Store pw Tid Oid Var Val) (st : Statement Tid Oid Var Val) :
    Decidable (s.enabled st) :=
  match st with
  | .new h _ o _ _ =>
      decidable_of_iff (s.bindings h = none ∧ (s.world.objects o).isNone = true) (by simp [enabled])
  | .clone h h' t o _ | .cloneNoCollect h h' t o | .cloneShared h h' t o | .downgrade h h' t o =>
      inferInstanceAs (Decidable (s.bindings h = some (.brc t o) ∧ s.bindings h' = none))
  | .upgrade h h' t o | .cloneWeak h h' t o =>
      inferInstanceAs (Decidable (s.bindings h = some (.weak t o) ∧ s.bindings h' = none))
  | .incrementStrongCount h h' t o =>
      inferInstanceAs (Decidable (s.bindings h = some (.raw t o) ∧ s.bindings h' = none))
  | .drop h t o _ | .dropNoCollect h t o | .deref h t o | .getMut h t o _ | .tryUnwrap h t o
  | .intoInner h t o _ | .intoRaw h t o | .forget h t o | .send h t _ o =>
      inferInstanceAs (Decidable (s.bindings h = some (.brc t o)))
  | .makeMut h t o o' _ _ =>
      decidable_of_iff (s.bindings h = some (.brc t o) ∧ (s.world.objects o').isNone = true)
        (by simp [enabled])
  | .dropWeak h t o | .sendWeak h t _ o =>
      inferInstanceAs (Decidable (s.bindings h = some (.weak t o)))
  | .fromRaw h t o | .decrementStrongCount h t o =>
      inferInstanceAs (Decidable (s.bindings h = some (.raw t o)))
  | .collect _ _ | .collectForce _ | .threadDeath _ => inferInstanceAs (Decidable True)

/-- `Brc::is_unique`. -/
def isUnique (s : Store pw Tid Oid Var Val) (t : Tid) (o : Oid) :
    Except Fault (Store pw Tid Oid Var Val × Bool) := do
  let ob ← s.world.deref o
  let (ob', unique) := ob.checkUnique (s.world.shortId t)
  return (s.setWorld (s.world.setObject o ob'), unique)

/-- The value of `o`, until it is destroyed. -/
def value (s : Store pw Tid Oid Var Val) (o : Oid) : Option Val :=
  match s.world.objects o with
  | none => none
  | some ob => if ob.destroyed = 0 then s.contents o else none

/-- `T::clone` of the value at `o` into `o'`. -/
def copy (s : Store pw Tid Oid Var Val) (o o' : Oid) : Store pw Tid Oid Var Val :=
  { s with contents := Function.update s.contents o' (s.value o) }

/-- Read through a reference to `o`. -/
def read (s : Store pw Tid Oid Var Val) (o : Oid) : Reply Val :=
  match s.value o with
  | none => .refused
  | some v => .value v

variable [Fintype Tid]

/-- Make a call, then go on in the world it leaves. -/
def call (s : Store pw Tid Oid Var Val) (c : Call Tid Oid) :
    Except Fault (Store pw Tid Oid Var Val) := do
  return s.setWorld (← s.world.call c)

/-- Make a call and put its result into a variable. -/
def callAssign (s : Store pw Tid Oid Var Val) (c : Call Tid Oid) (h : Var)
    (binding : Option (Binding Tid Oid)) :
    Except Fault (Store pw Tid Oid Var Val × Reply Val) := do
  return ((← s.call c).assign h binding, .done)

/-- `Brc::new`. -/
def new (s : Store pw Tid Oid Var Val) (h : Var) (t : Tid) (o : Oid) (v : Val) (panicking : Bool) :
    Except Fault (Store pw Tid Oid Var Val × Reply Val) := do
  let allocated ← s.call (.new t o panicking)
  return ((allocated.assign h (some (.brc t o))).write o v, .done)

/-- `Brc::get_mut`, and the write through the reference. -/
def getMut (s : Store pw Tid Oid Var Val) (t : Tid) (o : Oid) (v : Val) :
    Except Fault (Store pw Tid Oid Var Val × Reply Val) := do
  match ← s.isUnique t o with
  | (s', true) => return (s'.write o v, .done)
  | (s', false) => return (s', .refused)

/-- `Brc::make_mut`, and the write through the reference. -/
def makeMut (s : Store pw Tid Oid Var Val) (h : Var) (t : Tid) (o o' : Oid) (v : Val)
    (panicking : Bool) : Except Fault (Store pw Tid Oid Var Val × Reply Val) := do
  match ← s.isUnique t o with
  | (s', true) => return (s'.write o v, .done)
  | (s', false) =>
      let allocated ← s'.call (.new t o' panicking)
      let replaced ← (allocated.copy o o').call (.drop t o panicking)
      return ((replaced.assign h (some (.brc t o'))).write o' v, .done)

/-- `Brc::try_unwrap`. The handle is in `ManuallyDrop` when its value is read out. -/
def tryUnwrap (s : Store pw Tid Oid Var Val) (h : Var) (t : Tid) (o : Oid) :
    Except Fault (Store pw Tid Oid Var Val × Reply Val) := do
  match ← s.isUnique t o with
  | (s', true) => return (s'.assign h none, s'.read o)
  | (s', false) => return (s', .refused)

/-- `Brc::into_inner`. -/
def intoInner (s : Store pw Tid Oid Var Val) (h : Var) (t : Tid) (o : Oid) (panicking : Bool) :
    Except Fault (Store pw Tid Oid Var Val × Reply Val) := do
  match ← s.isUnique t o with
  | (s', true) => return (s'.assign h none, s'.read o)
  | (s', false) => return ((← s'.call (.drop t o panicking)).assign h none, .refused)

/-- `Weak::upgrade`. -/
def upgrade (s : Store pw Tid Oid Var Val) (h' : Var) (t : Tid) (o : Oid) :
    Except Fault (Store pw Tid Oid Var Val × Reply Val) := do
  let ob ← s.world.deref o
  let (ob', upgraded) ← ob.incrementStrongUnlessZero t (s.world.shortId t)
  let stored := s.setWorld (s.world.setObject o ob')
  return if upgraded then (stored.assign h' (some (.brc t o)), .done) else (stored, .refused)

/-- Run a statement to its end. -/
def exec (s : Store pw Tid Oid Var Val) :
    Statement Tid Oid Var Val → Except Fault (Store pw Tid Oid Var Val × Reply Val)
  | .new h t o v panicking => s.new h t o v panicking
  | .clone _ h' t o panicking => s.callAssign (.clone t o panicking) h' (some (.brc t o))
  | .cloneNoCollect _ h' t o => s.callAssign (.cloneNoCollect t o) h' (some (.brc t o))
  | .cloneShared _ h' t o => s.callAssign (.cloneShared t o) h' (some (.brc t o))
  | .drop h t o panicking => s.callAssign (.drop t o panicking) h none
  | .dropNoCollect h t o => s.callAssign (.dropNoCollect t o) h none
  | .downgrade _ h' t o => s.callAssign (.downgrade t o) h' (some (.weak t o))
  | .upgrade _ h' t o => s.upgrade h' t o
  | .cloneWeak _ h' t o => s.callAssign (.cloneWeak t o) h' (some (.weak t o))
  | .dropWeak h t o => s.callAssign (.dropWeak t o) h none
  | .deref _ _ o => do
      let _ ← s.world.deref o
      return (s, s.read o)
  | .getMut _ t o v => s.getMut t o v
  | .makeMut h t o o' v panicking => s.makeMut h t o o' v panicking
  | .tryUnwrap h t o => s.tryUnwrap h t o
  | .intoInner h t o panicking => s.intoInner h t o panicking
  | .intoRaw h t o => return (s.assign h (some (.raw t o)), .done)
  | .fromRaw h t o => return (s.assign h (some (.brc t o)), .done)
  | .incrementStrongCount _ h' t o => s.callAssign (.cloneNoCollect t o) h' (some (.raw t o))
  | .decrementStrongCount h t o => s.callAssign (.dropNoCollect t o) h none
  | .forget h _ _ => return (s.assign h none, .done)
  | .send h t t' o => s.callAssign (.send t t' o) h (some (.brc t' o))
  | .sendWeak h t t' o => s.callAssign (.sendWeak t t' o) h (some (.weak t' o))
  | .collect t panicking => return (← s.call (.collect t panicking), .done)
  | .collectForce t => return (← s.call (.collectForce t), .done)
  | .threadDeath t => return (← s.call (.threadDeath t), .done)

/-- Neither of the two calls that lose count of references is made. -/
def Safe (s : Store pw Tid Oid Var Val) : Statement Tid Oid Var Val → Prop
  | .clone _ _ t o panicking => s.world.CallSafe (.clone t o panicking)
  | .cloneNoCollect _ _ t o | .incrementStrongCount _ _ t o =>
      s.world.CallSafe (.cloneNoCollect t o)
  | .cloneShared _ _ t o => s.world.CallSafe (.cloneShared t o)
  | .drop _ t o panicking | .intoInner _ t o panicking => s.world.CallSafe (.drop t o panicking)
  | .dropNoCollect _ t o | .decrementStrongCount _ t o => s.world.CallSafe (.dropNoCollect t o)
  | .makeMut _ t o o' _ panicking => ∀ w, s.world.call (.new t o' panicking) = .ok w →
      w.CallSafe (.drop t o panicking)
  | _ => True

instance (s : Store pw Tid Oid Var Val) (st : Statement Tid Oid Var Val) :
    Decidable (s.Safe st) :=
  match st with
  | .clone _ _ t o panicking =>
      inferInstanceAs (Decidable (s.world.CallSafe (.clone t o panicking)))
  | .cloneNoCollect _ _ t o | .incrementStrongCount _ _ t o =>
      inferInstanceAs (Decidable (s.world.CallSafe (.cloneNoCollect t o)))
  | .cloneShared _ _ t o => inferInstanceAs (Decidable (s.world.CallSafe (.cloneShared t o)))
  | .drop _ t o panicking | .intoInner _ t o panicking =>
      inferInstanceAs (Decidable (s.world.CallSafe (.drop t o panicking)))
  | .dropNoCollect _ t o | .decrementStrongCount _ t o =>
      inferInstanceAs (Decidable (s.world.CallSafe (.dropNoCollect t o)))
  | .makeMut _ _ _ _ _ _ => decidableForallOk _ _
  | .new _ _ _ _ _ | .downgrade _ _ _ _ | .upgrade _ _ _ _ | .cloneWeak _ _ _ _ | .dropWeak _ _ _
  | .deref _ _ _ | .getMut _ _ _ _ | .tryUnwrap _ _ _ | .intoRaw _ _ _ | .fromRaw _ _ _
  | .forget _ _ _ | .send _ _ _ _ | .sendWeak _ _ _ _ | .collect _ _ | .collectForce _
  | .threadDeath _ => inferInstanceAs (Decidable True)

/-- Enabled statements that return this answer. -/
def next [DecidableEq Val] (s : Store pw Tid Oid Var Val) (step : Statement Tid Oid Var Val × Reply Val) :
    Option (Store pw Tid Oid Var Val) :=
  if s.enabled step.1 then
    match s.exec step.1 with
    | .error _ => none
    | .ok (s', answer) => if answer = step.2 then some s' else none
  else none

end Store

/-- All runs of programs, each statement with its answer. -/
def programs (pw : PointerWidth) (Tid Oid Var Val : Type) [DecidableEq Tid] [DecidableEq Oid]
    [DecidableEq Var] [DecidableEq Val] [Fintype Tid] :
    Transition.System (Store pw Tid Oid Var Val) (Statement Tid Oid Var Val × Reply Val) :=
  .ofNext (fun s => s = .initial) Store.next

theorem programs_step {pw : PointerWidth} {Tid Oid Var Val : Type} [DecidableEq Tid]
    [DecidableEq Oid] [DecidableEq Var] [DecidableEq Val] [Fintype Tid]
    {s s' : Store pw Tid Oid Var Val} {step : Statement Tid Oid Var Val × Reply Val} :
    (programs pw Tid Oid Var Val).step s step s' ↔
      s.enabled step.1 ∧ s.exec step.1 = .ok (s', step.2) := by
  simp only [programs, Transition.System.ofNext, Store.next]
  split
  · rename_i enabled
    cases result : s.exec step.1 with
    | error fault => simp
    | ok r =>
        obtain ⟨after, answer⟩ := r
        simp only [Option.ite_none_right_eq_some, Option.some.injEq, enabled, true_and,
          Except.ok.injEq, Prod.mk.injEq]
        exact and_comm
  · rename_i disabled
    simp [disabled]

end BiasedRc
