import BiasedRc.Handles

/-! # A shared value looks like a value of one's own

A handle that passes `is_unique` is the only one of either kind, so a write
through it is seen through no other variable. The program that shares values
then behaves as one in which every variable has a value of its own, and a weak
handle the value that was there when it was made. It is told apart only by what
`get_mut`, `try_unwrap` and `upgrade` refuse.
-/

namespace BiasedRc

open Tally Outcome Transition System

variable {pw : PointerWidth} {Tid Oid : Type} [DecidableEq Tid] [DecidableEq Oid]

/-- How often this handle of this thread is meant. -/
def amount (owed : Option (Tid × Handle Oid)) (t : Tid) (handle : Handle Oid) : Nat :=
  if owed = some (t, handle) then 1 else 0

@[simp] theorem amount_none (t : Tid) (handle : Handle Oid) : amount none t handle = 0 := rfl

/-- The handle that a call takes from its caller. -/
def Call.lost : Call Tid Oid → Option (Tid × Handle Oid)
  | .drop t o _ | .dropNoCollect t o | .send t _ o => some (t, .brc o)
  | .dropWeak t o | .sendWeak t _ o => some (t, .weak o)
  | _ => none

/-- The handle that a call returns, where it always returns one. -/
def Call.gained : Call Tid Oid → Option (Tid × Handle Oid)
  | .new t o _ | .clone t o _ | .cloneNoCollect t o | .cloneShared t o | .send _ t o =>
      some (t, .brc o)
  | .downgrade t o | .cloneWeak t o | .sendWeak _ t o => some (t, .weak o)
  | _ => none

namespace World

variable [Fintype Tid] {w w' w'' : World pw Tid Oid} {t : Tid} {o : Oid}
  {lost gained : Option (Tid × Handle Oid)}

/-- Each count changes by the one handle taken and the one given. -/
structure Trades (w : World pw Tid Oid) (lost gained : Option (Tid × Handle Oid))
    (w' : World pw Tid Oid) : Prop where
  inv : WorldInv w'
  held : ∀ t handle, w'.held handle t + amount lost t handle = w.held handle t + amount gained t handle

theorem Trades.trans (first : w.Trades none none w') (second : w'.Trades lost gained w'') :
    w.Trades lost gained w'' where
  inv := second.inv
  held t handle := by
    have before := first.held t handle
    have after := second.held t handle
    simp only [amount_none] at before
    omega

theorem Drains.trades (drains : w.Drains w') (inv : WorldInv w') : w.Trades none none w' where
  inv := inv
  held t handle := by
    have same : w'.held handle t = w.held handle t := by
      cases found : w.objects handle.target with
      | none => rw [held_congr ((drains.fresh found).trans found.symm)]
      | some ob =>
          obtain ⟨ob', found', drained⟩ := drains.object found
          cases handle with
          | brc o =>
              simp only [Handle.target] at found found'
              rw [held_brc found, held_brc found', drained.strong]
          | weak o =>
              simp only [Handle.target] at found found'
              rw [held_weak found, held_weak found', drained.weak]
    rw [same]

/-- A handle gained and another lost in the call after it. -/
theorem Trades.exchange (first : w.Trades none gained w') (second : w'.Trades lost none w'') :
    w.Trades lost gained w'' where
  inv := second.inv
  held t handle := by
    have before := first.held t handle
    have after := second.held t handle
    simp only [amount_none] at before after
    omega

/-- What happened to one object decides what happened to the counts. -/
theorem Touches.trades {ob : Object pw Tid} {strong weak : Tid → Nat} (found : w.objects o = some ob)
    (touches : w.Touches o strong weak w')
    (brcs : ∀ t, strong t + amount lost t (.brc o) = ob.strong t + amount gained t (.brc o))
    (weaks : ∀ t, weak t + amount lost t (.weak o) = ob.weak t + amount gained t (.weak o))
    (here : ∀ t handle, handle.target ≠ o →
      amount lost t handle = 0 ∧ amount gained t handle = 0) : w.Trades lost gained w' where
  inv := touches.inv
  held t handle := by
    obtain ⟨ob', found', rfl, rfl⟩ := touches.object
    by_cases target : handle.target = o
    · cases handle with
      | brc o' =>
          obtain rfl : o' = o := target
          rw [held_brc found, held_brc found']
          exact brcs t
      | weak o' =>
          obtain rfl : o' = o := target
          rw [held_weak found, held_weak found']
          exact weaks t
    · obtain ⟨none, nothing⟩ := here t handle target
      rw [held_congr (touches.others handle.target target), none, nothing]

section

omit [Fintype Tid]

theorem amount_brc_weak (t t' : Tid) : amount (some (t, .brc o)) t' (.weak o) = 0 := by
  simp [amount]

theorem amount_weak_brc (t t' : Tid) : amount (some (t, .weak o)) t' (.brc o) = 0 := by
  simp [amount]

theorem amount_of_target {t t' : Tid} {handle other : Handle Oid} (elsewhere : other.target ≠ handle.target) :
    amount (some (t, handle)) t' other = 0 := by
  rw [amount, if_neg]
  rintro ⟨⟩
  exact elsewhere rfl

theorem raise_eq_add_amount (t : Tid) (handle : Handle Oid) (counts : Tid → Nat) (t' : Tid) :
    raise counts t t' = counts t' + amount (some (t, handle)) t' handle := by
  by_cases same : t' = t
  · subst same
    rw [raise_self, amount, if_pos rfl]
  · rw [raise_of_ne _ same, amount, if_neg (by simp [Ne.symm same])]
    rfl

theorem lower_add_amount {t : Tid} (handle : Handle Oid) {counts : Tid → Nat} (holds : 1 ≤ counts t)
    (t' : Tid) : lower counts t t' + amount (some (t, handle)) t' handle = counts t' := by
  by_cases same : t' = t
  · subst same
    rw [lower_self, amount, if_pos rfl]
    omega
  · rw [lower_of_ne _ same, amount, if_neg (by simp [Ne.symm same])]
    rfl

end

section Traded

variable {ob : Object pw Tid} {source target : Tid}

theorem Touches.gainBrc (found : w.objects o = some ob)
    (touches : w.Touches o (raise ob.strong t) ob.weak w') : w.Trades none (some (t, .brc o)) w' :=
  touches.trades found (fun t' => raise_eq_add_amount t (.brc o) ob.strong t')
    (fun t' => by rw [amount_brc_weak, amount_none]) fun _ _ apart => ⟨rfl, amount_of_target apart⟩

theorem Touches.idle (found : w.objects o = some ob) (touches : w.Touches o ob.strong ob.weak w') :
    w.Trades none none w' :=
  touches.trades found (fun _ => rfl) (fun _ => rfl) fun _ _ _ => ⟨rfl, rfl⟩

theorem Touches.loseBrc (found : w.objects o = some ob) (holds : 1 ≤ ob.strong t)
    (touches : w.Touches o (lower ob.strong t) ob.weak w') : w.Trades (some (t, .brc o)) none w' :=
  touches.trades found (fun t' => lower_add_amount (.brc o) holds t')
    (fun t' => by rw [amount_brc_weak, amount_none]) fun _ _ apart => ⟨amount_of_target apart, rfl⟩

theorem Touches.gainWeak (found : w.objects o = some ob)
    (touches : w.Touches o ob.strong (raise ob.weak t) w') : w.Trades none (some (t, .weak o)) w' :=
  touches.trades found (fun t' => by rw [amount_weak_brc, amount_none])
    (fun t' => raise_eq_add_amount t (.weak o) ob.weak t') fun _ _ apart => ⟨rfl, amount_of_target apart⟩

theorem Touches.loseWeak (found : w.objects o = some ob) (holds : 1 ≤ ob.weak t)
    (touches : w.Touches o ob.strong (lower ob.weak t) w') : w.Trades (some (t, .weak o)) none w' :=
  touches.trades found (fun t' => by rw [amount_weak_brc, amount_none])
    (fun t' => lower_add_amount (.weak o) holds t') fun _ _ apart => ⟨amount_of_target apart, rfl⟩

theorem Touches.moveBrc (found : w.objects o = some ob) (holds : 1 ≤ ob.strong source)
    (touches : w.Touches o (raise (lower ob.strong source) target) ob.weak w') :
    w.Trades (some (source, .brc o)) (some (target, .brc o)) w' := by
  refine touches.trades found ?_ ?_ fun _ _ apart => ⟨amount_of_target apart, amount_of_target apart⟩
  · intro t'
    have lowered := lower_add_amount (.brc o) holds t'
    have raised := raise_eq_add_amount target (.brc o) (lower ob.strong source) t'
    omega
  · intro t'
    rw [amount_brc_weak, amount_brc_weak]

theorem Touches.moveWeak (found : w.objects o = some ob) (holds : 1 ≤ ob.weak source)
    (touches : w.Touches o ob.strong (raise (lower ob.weak source) target) w') :
    w.Trades (some (source, .weak o)) (some (target, .weak o)) w' := by
  refine touches.trades found ?_ ?_ fun _ _ apart => ⟨amount_of_target apart, amount_of_target apart⟩
  · intro t'
    rw [amount_weak_brc, amount_weak_brc]
  · intro t'
    have lowered := lower_add_amount (.weak o) holds t'
    have raised := raise_eq_add_amount target (.weak o) (lower ob.weak source) t'
    omega

section

omit [DecidableEq Tid] [DecidableEq Oid] [Fintype Tid]

theorem held_of_free (free : w.objects o = none) {handle : Handle Oid} (target : handle.target = o)
    (t : Tid) : w.held handle t = 0 := by
  by_contra some
  obtain ⟨ob, found⟩ := exists_of_held (Nat.pos_of_ne_zero some)
  rw [target, free] at found
  cases found

theorem holdsStrong_of_held (holds : 1 ≤ w.held (.brc o) t) : w.holdsStrong t o := by
  obtain ⟨ob, found⟩ := exists_of_held holds
  simp only [Handle.target] at found
  exact ⟨ob, found, by rwa [held_brc found] at holds⟩

theorem holdsWeak_of_held (holds : 1 ≤ w.held (.weak o) t) : w.holdsWeak t o := by
  obtain ⟨ob, found⟩ := exists_of_held holds
  simp only [Handle.target] at found
  exact ⟨ob, found, by rwa [held_weak found] at holds⟩

end

theorem trades_allocate (inv : WorldInv w) (free : w.objects o = none) :
    w.Trades none (some (t, .brc o)) (w.allocate t o) where
  inv := inv.allocate free
  held t' handle := by
    rw [amount_none, Nat.add_zero]
    by_cases target : handle.target = o
    · rw [held_of_free free target, Nat.zero_add]
      cases handle with
      | brc o' =>
          obtain rfl : o' = o := target
          rw [allocate, held_brc objects_setObject_self]
          exact (raise_eq_add_amount t (.brc o') (fun _ => 0) t').trans (Nat.zero_add _)
      | weak o' =>
          obtain rfl : o' = o := target
          rw [allocate, held_weak objects_setObject_self, amount_brc_weak]
          rfl
    · rw [allocate, held_setObject_of_ne target, held_congr (congrFun (objects_withCurrent w t) _),
        show amount (some (t, .brc o)) t' handle = 0 from amount_of_target target, Nat.add_zero]

end Traded

end World

namespace WorldInv

variable [Fintype Tid] {w : World pw Tid Oid}

/-- Every call but an upgrade trades the handles it says. -/
theorem trades (inv : WorldInv w) {c : Call Tid Oid} (enabled : w.enabled c) (safe : w.CallSafe c)
    (plain : c.isUpgrade = false) :
    Yields Fault.Overflow (w.Trades c.lost c.gained) (w.call c) := by
  obtain ⟨noCarry, noEarlyMerge⟩ := safe
  cases c with
  | new t o panicking =>
      refine (inv.collect panicking).bind fun w' collects => ?_
      have free := collects.drains.fresh enabled
      exact (collects.drains.trades collects.inv).trans (World.trades_allocate collects.inv free)
  | clone t o panicking =>
      refine (inv.collect panicking).bind_eq fun w' returned collects => ?_
      obtain ⟨ob, found, holds⟩ := collects.drains.holdsStrong enabled
      exact (collects.inv.cloneNoCollect found holds (noCarry w' returned)).mono fun w'' steps =>
        (collects.drains.trades collects.inv).trans (steps.gainBrc found)
  | cloneNoCollect t o =>
      obtain ⟨ob, found, holds⟩ := enabled
      exact (inv.cloneNoCollect found holds noCarry).mono fun w' steps => steps.gainBrc found
  | cloneShared t o =>
      obtain ⟨ob, found, holds⟩ := enabled
      exact (inv.cloneShared found holds (noCarry ob found)).mono fun w' steps => steps.gainBrc found
  | drop t o panicking =>
      refine (inv.collect panicking).bind_eq fun w' returned collects => ?_
      obtain ⟨ob, found, holds⟩ := collects.drains.holdsStrong enabled
      have dropped := collects.inv.dropNoCollect found holds (noEarlyMerge w' returned ob found)
      exact (dropped.weaken nofun).mono fun w'' steps =>
        (collects.drains.trades collects.inv).trans (steps.loseBrc found holds)
  | dropNoCollect t o =>
      obtain ⟨ob, found, holds⟩ := enabled
      have dropped := inv.dropNoCollect found holds (noEarlyMerge ob found)
      exact (dropped.weaken nofun).mono fun w' steps => steps.loseBrc found holds
  | upgrade t o => cases plain
  | downgrade t o =>
      obtain ⟨ob, found, holds⟩ := enabled
      exact (inv.downgrade found holds).mono fun w' steps => steps.gainWeak found
  | cloneWeak t o =>
      obtain ⟨ob, found, holds⟩ := enabled
      exact (inv.cloneWeak found holds).mono fun w' steps => steps.gainWeak found
  | dropWeak t o =>
      obtain ⟨ob, found, holds⟩ := enabled
      exact ((inv.dropWeak found holds).weaken nofun).mono fun w' steps => steps.loseWeak found holds
  | collect t panicking =>
      exact (inv.collect panicking).mono fun w' collects => collects.drains.trades collects.inv
  | collectForce t =>
      exact (inv.collectForce.weaken fun _ permitted => permitted.1).mono
        fun w' result => result.1.drains.trades result.1.inv
  | threadDeath t =>
      exact (inv.threadDeath.weaken fun _ permitted => permitted.1).mono
        fun w' result => result.2.1.trades result.1
  | send source target o =>
      obtain ⟨ob, found, holds⟩ := enabled
      exact ((inv.send found target holds).weaken nofun).mono fun w' steps => steps.moveBrc found holds
  | sendWeak source target o =>
      obtain ⟨ob, found, holds⟩ := enabled
      exact ((inv.sendWeak found holds).weaken nofun).mono fun w' steps => steps.moveWeak found holds

end WorldInv

/-- The handle that a variable owns, and the thread that may use it. -/
def Binding.handle : Binding Tid Oid → Tid × Handle Oid
  | .brc t o | .raw t o => (t, .brc o)
  | .weak t o => (t, .weak o)

def Binding.target (binding : Binding Tid Oid) : Oid := binding.handle.2.target

/-- What a variable means where nothing is shared. -/
inductive Meaning (Val : Type) where
  /-- A value of the variable's own. -/
  | owned (v : Val)
  /-- The value that was there when the weak handle was made. -/
  | snapshot (v : Val)
  deriving DecidableEq

def Binding.meaning {Val : Type} (contents : Oid → Option Val) : Binding Tid Oid → Option (Meaning Val)
  | .brc _ o | .raw _ o => (contents o).map .owned
  | .weak _ o => (contents o).map .snapshot

omit [DecidableEq Tid] [DecidableEq Oid] in
theorem Binding.meaning_congr {Val : Type} {contents contents' : Oid → Option Val}
    {binding : Binding Tid Oid} (same : contents' binding.target = contents binding.target) :
    binding.meaning contents' = binding.meaning contents := by
  cases binding <;> exact congrArg (Option.map _) same

section Means

variable {Var Val : Type} [DecidableEq Var]

/-- What a statement does to variables that share nothing. -/
def Statement.Means (meanings : Var → Option (Meaning Val)) (st : Statement Tid Oid Var Val)
    (answer : Reply Val) (meanings' : Var → Option (Meaning Val)) : Prop :=
  match st with
  | .new h _ _ v _ => meanings h = none ∧ answer = .done ∧
      meanings' = Function.update meanings h (some (.owned v))
  | .clone h h' _ _ _ | .cloneNoCollect h h' _ _ | .cloneShared h h' _ _
  | .incrementStrongCount h h' _ _ => ∃ v, meanings h = some (.owned v) ∧ meanings h' = none ∧
      answer = .done ∧ meanings' = Function.update meanings h' (some (.owned v))
  | .downgrade h h' _ _ => ∃ v, meanings h = some (.owned v) ∧ meanings h' = none ∧
      answer = .done ∧ meanings' = Function.update meanings h' (some (.snapshot v))
  | .cloneWeak h h' _ _ => ∃ v, meanings h = some (.snapshot v) ∧ meanings h' = none ∧
      answer = .done ∧ meanings' = Function.update meanings h' (some (.snapshot v))
  | .upgrade h h' _ _ => ∃ v, meanings h = some (.snapshot v) ∧ meanings h' = none ∧
      (answer = .done ∧ meanings' = Function.update meanings h' (some (.owned v)) ∨
        answer = .refused ∧ meanings' = meanings)
  | .drop h _ _ _ | .dropNoCollect h _ _ | .decrementStrongCount h _ _ | .forget h _ _ =>
      ∃ v, meanings h = some (.owned v) ∧ answer = .done ∧
        meanings' = Function.update meanings h none
  | .dropWeak h _ _ => ∃ v, meanings h = some (.snapshot v) ∧ answer = .done ∧
      meanings' = Function.update meanings h none
  | .deref h _ _ => ∃ v, meanings h = some (.owned v) ∧ answer = .value v ∧ meanings' = meanings
  | .getMut h _ _ v => ∃ old, meanings h = some (.owned old) ∧
      (answer = .done ∧ meanings' = Function.update meanings h (some (.owned v)) ∨
        answer = .refused ∧ meanings' = meanings)
  | .makeMut h _ _ _ v _ => ∃ old, meanings h = some (.owned old) ∧ answer = .done ∧
      meanings' = Function.update meanings h (some (.owned v))
  | .tryUnwrap h _ _ => ∃ v, meanings h = some (.owned v) ∧
      (answer = .value v ∧ meanings' = Function.update meanings h none ∨
        answer = .refused ∧ meanings' = meanings)
  | .intoInner h _ _ _ => ∃ v, meanings h = some (.owned v) ∧
      (answer = .value v ∨ answer = .refused) ∧ meanings' = Function.update meanings h none
  | .intoRaw h _ _ | .fromRaw h _ _ | .send h _ _ _ => ∃ v, meanings h = some (.owned v) ∧
      answer = .done ∧ meanings' = meanings
  | .sendWeak h _ _ _ => ∃ v, meanings h = some (.snapshot v) ∧ answer = .done ∧
      meanings' = meanings
  | .collect _ _ | .collectForce _ | .threadDeath _ => answer = .done ∧ meanings' = meanings

end Means

namespace Store

variable {Var Val : Type} {s : Store pw Tid Oid Var Val}

def meanings (s : Store pw Tid Oid Var Val) (h : Var) : Option (Meaning Val) :=
  (s.bindings h).bind (Binding.meaning s.contents)

section

omit [DecidableEq Tid] [DecidableEq Oid]

theorem meanings_of_bound {h : Var} {binding : Binding Tid Oid} (bound : s.bindings h = some binding) :
    s.meanings h = binding.meaning s.contents := by
  rw [meanings, bound, Option.bind_some]

theorem meanings_of_unbound {h : Var} (unbound : s.bindings h = none) : s.meanings h = none := by
  rw [meanings, unbound, Option.bind_none]

@[simp] theorem meanings_setWorld (w : World pw Tid Oid) : (s.setWorld w).meanings = s.meanings := rfl

end

variable [DecidableEq Var]

omit [DecidableEq Tid] [DecidableEq Oid] in
@[simp] theorem meanings_assign (h : Var) (binding : Option (Binding Tid Oid)) :
    (s.assign h binding).meanings =
      Function.update s.meanings h (binding.bind (Binding.meaning s.contents)) := by
  funext h'
  by_cases same : h' = h
  · subst same
    simp only [meanings, assign, Function.update_self]
  · simp only [meanings, assign, Function.update_of_ne same]

omit [DecidableEq Tid] [DecidableEq Oid] in
/-- A variable that changes its kind or its thread means what it meant. -/
theorem update_meanings {h : Var} {binding other : Binding Tid Oid}
    (bound : s.bindings h = some binding)
    (same : other.meaning s.contents = binding.meaning s.contents) :
    Function.update s.meanings h (other.meaning s.contents) = s.meanings := by
  rw [same, ← meanings_of_bound bound, Function.update_eq_self]

omit [DecidableEq Tid] in
/-- A write is seen through the variables that point there. -/
theorem meanings_write {h : Var} {t : Tid} {o : Oid} {v : Val}
    (only : ∀ h' binding, h' ≠ h → s.bindings h' = some binding → binding.target ≠ o)
    (bound : s.bindings h = some (.brc t o)) :
    (s.write o v).meanings = Function.update s.meanings h (some (.owned v)) := by
  funext h'
  by_cases same : h' = h
  · subst same
    rw [Function.update_self, meanings_of_bound (s := s.write o v) bound]
    simp only [Binding.meaning, write, Function.update_self, Option.map_some]
  · rw [Function.update_of_ne same]
    cases found : s.bindings h' with
    | none => rw [meanings_of_unbound found, meanings_of_unbound (s := s.write o v) found]
    | some binding =>
        have elsewhere := only h' binding same found
        rw [meanings_of_bound found, meanings_of_bound (s := s.write o v) found]
        exact Binding.meaning_congr (Function.update_of_ne elsewhere ..)

omit [DecidableEq Tid] in
/-- What is written over a copy is all that stays of it. -/
theorem write_copy {h : Var} {owned : Option (Binding Tid Oid)} {o o' : Oid} {v : Val}
    {w w' : World pw Tid Oid} :
    ((((s.setWorld w).copy o o').setWorld w').assign h owned).write o' v =
      ((s.setWorld w').assign h owned).write o' v := by
  simp only [Store.copy, setWorld, assign, write, Function.update_idem]

variable [Fintype Tid]

omit [DecidableEq Var] in
theorem call_yields (inv : WorldInv s.world) {c : Call Tid Oid} (enabled : s.world.enabled c)
    (safe : s.world.CallSafe c) (plain : c.isUpgrade = false) :
    Yields Fault.Overflow (fun s' => ∃ w, s.world.call c = .ok w ∧ s' = s.setWorld w ∧
      s.world.Trades c.lost c.gained w) (s.call c) :=
  (inv.trades enabled safe plain).bind_eq fun w returned trades => ⟨w, returned, rfl, trades⟩

variable [Fintype Var]

/-- How many variables own this handle. -/
def owners (s : Store pw Tid Oid Var Val) (t : Tid) (handle : Handle Oid) : Nat :=
  tally (fun binding : Option (Binding Tid Oid) => amount (binding.map Binding.handle) t handle) s.bindings

/-- What the variables own is counted, and every object they point to has a value. -/
structure Inv (s : Store pw Tid Oid Var Val) : Prop where
  world : WorldInv s.world
  covered : ∀ t handle, s.owners t handle ≤ s.world.held handle t
  filled : ∀ h binding, s.bindings h = some binding → ∃ v, s.contents binding.target = some v

namespace Inv

variable {h h' : Var} {t : Tid} {o : Oid} {w : World pw Tid Oid} {binding : Binding Tid Oid}
  {owned : Option (Binding Tid Oid)} {lost gained : Option (Tid × Handle Oid)} {v : Val}

omit [DecidableEq Var] in
theorem held (inv : s.Inv) (bound : s.bindings h = some binding) :
    1 ≤ s.world.held binding.handle.2 binding.handle.1 := by
  refine le_trans ?_ (inv.covered binding.handle.1 binding.handle.2)
  refine le_trans ?_ (le_tally _ s.bindings h)
  simp only [bound, Option.map_some, amount, if_true, le_refl]

/-- One variable changes hands while the counts do. -/
theorem settle (inv : s.Inv) (sound : WorldInv w)
    (counted : ∀ t handle, s.world.held handle t + amount (owned.map Binding.handle) t handle ≤
      w.held handle t + amount ((s.bindings h).map Binding.handle) t handle)
    (filled : ∀ binding, owned = some binding → ∃ v, s.contents binding.target = some v) :
    ((s.setWorld w).assign h owned).Inv where
  world := sound
  covered t handle := by
    have moved := tally_update (fun binding : Option (Binding Tid Oid) =>
      amount (binding.map Binding.handle) t handle) s.bindings h owned
    have before := inv.covered t handle
    have change := counted t handle
    simp only [owners, assign, setWorld] at before ⊢
    omega
  filled h' binding := by
    simp only [assign, setWorld]
    by_cases same : h' = h
    · subst same
      rw [Function.update_self]
      exact filled binding
    · rw [Function.update_of_ne same]
      exact inv.filled h' binding

theorem trade (inv : s.Inv) (trades : s.world.Trades lost gained w)
    (old : (s.bindings h).map Binding.handle = lost) (new : owned.map Binding.handle = gained)
    (filled : ∀ binding, owned = some binding → ∃ v, s.contents binding.target = some v) :
    ((s.setWorld w).assign h owned).Inv := by
  refine inv.settle trades.inv (fun t handle => ?_) filled
  rw [old, new]
  exact (trades.held t handle).ge

/-- A reference that no variable owns any more stays counted. -/
theorem forget (inv : s.Inv) : (s.assign h none).Inv :=
  inv.settle inv.world (fun _ _ => Nat.le_add_right _ _) nofun

omit [DecidableEq Var] in
theorem setWorld (inv : s.Inv) (trades : s.world.Trades none none w) : (s.setWorld w).Inv where
  world := trades.inv
  covered t handle := by
    have same := trades.held t handle
    simp only [amount_none, Nat.add_zero] at same
    exact (inv.covered t handle).trans_eq same.symm
  filled := inv.filled

/-- Two variables that own the same handle make it count twice. -/
theorem two_le_held (inv : s.Inv) {other : Binding Tid Oid} (apart : h' ≠ h)
    (bound : s.bindings h = some binding) (bound' : s.bindings h' = some other)
    (same : other.handle = binding.handle) : 2 ≤ s.world.held binding.handle.2 binding.handle.1 := by
  refine le_trans ?_ (inv.covered binding.handle.1 binding.handle.2)
  refine le_trans ?_ (add_le_tally _ s.bindings apart)
  simp only [bound, bound', Option.map_some, same, amount, if_true, le_refl]

/-- A handle that passes the test is the only variable that points there. -/
theorem alone (inv : s.Inv) {ob : Object pw Tid} (bound : s.bindings h = some (.brc t o))
    (found : s.world.objects o = some ob) (seen : ob.SeenAlone (s.world.shortId t)) :
    ∀ h' binding, h' ≠ h → s.bindings h' = some binding → binding.target ≠ o := by
  have holds := inv.held bound
  simp only [Binding.handle, World.held_brc found] at holds
  obtain ⟨strong, weak⟩ := (inv.world.object found).last_of_alone holds seen
  have brc : ∀ h' t', h' ≠ h → ∀ binding, s.bindings h' = some binding →
      binding.handle ≠ (t', .brc o) := by
    intro h' t' apart binding bound' same
    have holds' := inv.held bound'
    simp only [same, World.held_brc found] at holds'
    by_cases sameThread : t' = t
    · subst sameThread
      have twice := inv.two_le_held apart bound bound' same
      simp only [Binding.handle, World.held_brc found] at twice
      have most := le_total ob.strong t'
      omega
    · have both : ob.strong t' + ob.strong t ≤ total ob.strong := add_le_tally id ob.strong sameThread
      omega
  intro h' binding apart bound'
  cases binding with
  | brc t' o' | raw t' o' =>
      intro same
      obtain rfl : o' = o := same
      exact brc h' t' apart _ bound' rfl
  | weak t' o' =>
      intro same
      obtain rfl : o' = o := same
      have holds' := inv.held bound'
      simp only [Binding.handle, World.held_weak found] at holds'
      have most := le_total ob.weak t'
      omega

omit [DecidableEq Var] in
theorem write (inv : s.Inv) (o : Oid) (v : Val) : (s.write o v).Inv where
  world := inv.world
  covered := inv.covered
  filled h binding bound := by
    obtain ⟨v', contents⟩ := inv.filled h binding bound
    by_cases here : binding.target = o
    · exact ⟨v, by rw [here]; exact Function.update_self ..⟩
    · exact ⟨v', (Function.update_of_ne here ..).trans contents⟩

theorem callAssign (inv : s.Inv) (h : Var) (owned : Option (Binding Tid Oid)) {c : Call Tid Oid}
    (enabled : s.world.enabled c) (safe : s.world.CallSafe c) (plain : c.isUpgrade = false)
    (old : (s.bindings h).map Binding.handle = c.lost) (new : owned.map Binding.handle = c.gained)
    (filled : ∀ binding, owned = some binding → ∃ v, s.contents binding.target = some v) :
    Yields Fault.Overflow (fun r => r.1.Inv ∧ r.2 = .done ∧
      r.1.meanings = Function.update s.meanings h (owned.bind (Binding.meaning s.contents)))
      (s.callAssign c h owned) := by
  refine (call_yields inv.world enabled safe plain).bind ?_
  rintro _ ⟨w, _, rfl, trades⟩
  exact ⟨inv.trade trades old new filled, rfl, meanings_assign h owned⟩

omit [DecidableEq Var] in
theorem meaning_eq (inv : s.Inv) (kind : Val → Meaning Val) (bound : s.bindings h = some binding)
    (reads : binding.meaning s.contents = (s.contents binding.target).map kind) :
    ∃ v, s.contents binding.target = some v ∧ s.meanings h = some (kind v) := by
  obtain ⟨v, contents⟩ := inv.filled h binding bound
  refine ⟨v, contents, ?_⟩
  rw [meanings_of_bound bound, reads, contents, Option.map_some]

/-- A copy of a variable in a fresh one. -/
theorem copy (inv : s.Inv) {c : Call Tid Oid} {copied : Binding Tid Oid} {kind kind' : Val → Meaning Val}
    (bound : s.bindings h = some binding) (free : s.bindings h' = none)
    (enabled : s.world.enabled c) (safe : s.world.CallSafe c) (plain : c.isUpgrade = false)
    (takes : c.lost = none) (gives : c.gained = some copied.handle)
    (same : copied.target = binding.target)
    (reads : binding.meaning s.contents = (s.contents binding.target).map kind)
    (becomes : copied.meaning s.contents = (s.contents binding.target).map kind') :
    Yields Fault.Overflow (fun r => r.1.Inv ∧ ∃ v, s.meanings h = some (kind v) ∧
      s.meanings h' = none ∧ r.2 = .done ∧
        r.1.meanings = Function.update s.meanings h' (some (kind' v)))
      (s.callAssign c h' (some copied)) := by
  obtain ⟨v, contents, meaning⟩ := inv.meaning_eq kind bound reads
  have copies := inv.callAssign h' (some copied) enabled safe plain
    (by rw [free, takes]; rfl) (by rw [gives]; rfl) (by rintro _ ⟨⟩; exact ⟨v, by rw [same, contents]⟩)
  refine copies.mono ?_
  rintro r ⟨kept, answer, meanings⟩
  refine ⟨kept, v, meaning, meanings_of_unbound free, answer, ?_⟩
  rw [meanings, Option.bind_some, becomes, contents, Option.map_some]

/-- A variable is given up. -/
theorem release (inv : s.Inv) {c : Call Tid Oid} {kind : Val → Meaning Val}
    (bound : s.bindings h = some binding) (enabled : s.world.enabled c) (safe : s.world.CallSafe c)
    (plain : c.isUpgrade = false) (takes : c.lost = some binding.handle) (gives : c.gained = none)
    (reads : binding.meaning s.contents = (s.contents binding.target).map kind) :
    Yields Fault.Overflow (fun r => r.1.Inv ∧ ∃ v, s.meanings h = some (kind v) ∧ r.2 = .done ∧
      r.1.meanings = Function.update s.meanings h none) (s.callAssign c h none) := by
  obtain ⟨v, contents, meaning⟩ := inv.meaning_eq kind bound reads
  have releases := inv.callAssign h none enabled safe plain
    (by rw [bound, takes]; rfl) (by rw [gives]; rfl) nofun
  refine releases.mono ?_
  rintro r ⟨kept, answer, meanings⟩
  exact ⟨kept, v, meaning, answer, meanings⟩

/-- A variable goes to another thread. -/
theorem move (inv : s.Inv) {c : Call Tid Oid} {moved : Binding Tid Oid} {kind : Val → Meaning Val}
    (bound : s.bindings h = some binding) (enabled : s.world.enabled c) (safe : s.world.CallSafe c)
    (plain : c.isUpgrade = false) (takes : c.lost = some binding.handle)
    (gives : c.gained = some moved.handle) (same : moved.target = binding.target)
    (reads : binding.meaning s.contents = (s.contents binding.target).map kind)
    (becomes : moved.meaning s.contents = binding.meaning s.contents) :
    Yields Fault.Overflow (fun r => r.1.Inv ∧ ∃ v, s.meanings h = some (kind v) ∧ r.2 = .done ∧
      r.1.meanings = s.meanings) (s.callAssign c h (some moved)) := by
  obtain ⟨v, contents, meaning⟩ := inv.meaning_eq kind bound reads
  have moves := inv.callAssign h (some moved) enabled safe plain
    (by rw [bound, takes]; rfl) (by rw [gives]; rfl) (by rintro _ ⟨⟩; exact ⟨v, by rw [same, contents]⟩)
  refine moves.mono ?_
  rintro r ⟨kept, answer, meanings⟩
  exact ⟨kept, v, meaning, answer, meanings.trans (update_meanings bound becomes)⟩

/-- A variable becomes another kind of handle for the same reference. -/
theorem relabel (inv : s.Inv) {other : Binding Tid Oid} {kind : Val → Meaning Val}
    (bound : s.bindings h = some binding) (same : other.handle = binding.handle)
    (reads : binding.meaning s.contents = (s.contents binding.target).map kind)
    (becomes : other.meaning s.contents = binding.meaning s.contents) :
    (s.assign h (some other)).Inv ∧ ∃ v, s.meanings h = some (kind v) ∧
      (Reply.done : Reply Val) = .done ∧ (s.assign h (some other)).meanings = s.meanings := by
  obtain ⟨v, contents, meaning⟩ := inv.meaning_eq kind bound reads
  refine ⟨inv.settle (w := s.world) inv.world ?_ ?_, v, meaning, rfl,
    (meanings_assign h _).trans (update_meanings bound becomes)⟩
  · intro t handle
    rw [bound, Option.map_some, Option.map_some, same]
  · rintro _ ⟨⟩
    rw [Binding.target, same]
    exact ⟨v, contents⟩

omit [DecidableEq Var] in
/-- A call that takes and gives no handle is not noticed. -/
theorem unnoticed (inv : s.Inv) {c : Call Tid Oid} (enabled : s.world.enabled c)
    (safe : s.world.CallSafe c) (plain : c.isUpgrade = false) (takes : c.lost = none)
    (gives : c.gained = none) :
    Yields Fault.Overflow (fun r : Store pw Tid Oid Var Val × Reply Val =>
      r.1.Inv ∧ r.2 = .done ∧ r.1.meanings = s.meanings) (do return (← s.call c, .done)) := by
  refine (call_yields inv.world enabled safe plain).bind ?_
  rintro _ ⟨w, _, rfl, trades⟩
  rw [takes, gives] at trades
  exact ⟨inv.setWorld trades, rfl, rfl⟩

/-- A new object is reached through one variable only. -/
theorem place (inv : s.Inv) (free : s.world.objects o = none)
    (trades : s.world.Trades lost (some (t, .brc o)) w)
    (old : (s.bindings h).map Binding.handle = lost) (v : Val) :
    (((s.setWorld w).assign h (some (.brc t o))).write o v).Inv ∧
      (((s.setWorld w).assign h (some (.brc t o))).write o v).meanings =
        Function.update s.meanings h (some (.owned v)) := by
  have elsewhere : ∀ h' binding, s.bindings h' = some binding → binding.target ≠ o := by
    rintro h' binding bound rfl
    obtain ⟨ob, found⟩ := World.exists_of_held (inv.held bound)
    rw [show binding.handle.2.target = binding.target from rfl, free] at found
    cases found
  constructor
  · refine (inv.write o v).trade trades old rfl ?_
    rintro _ ⟨⟩
    exact ⟨v, Function.update_self ..⟩
  · rw [meanings_write (h := h) (t := t), meanings_assign, Function.update_idem, meanings_setWorld]
    · intro h' binding apart bound
      simp only [assign, Function.update_of_ne apart] at bound
      exact elsewhere h' binding bound
    · exact Function.update_self ..

/-- `is_unique` leaves everything as it was, and only a variable that shares nothing passes. -/
theorem isUnique (inv : s.Inv) (bound : s.bindings h = some (.brc t o)) :
    (s.isUnique t o = .ok (s, true) ∧
      ∀ h' binding, h' ≠ h → s.bindings h' = some binding → binding.target ≠ o) ∨
    s.isUnique t o = .ok (s, false) := by
  obtain ⟨ob, found, holds⟩ := World.holdsStrong_of_held (inv.held bound)
  have pointed : s.world.deref o = .ok ob :=
    World.deref_eq_ok.mpr ⟨found, (inv.world.object found).not_freed_of_strong holds⟩
  have result : s.isUnique t o = .ok (s, ob.isUnique (s.world.shortId t)) := by
    simp only [Store.isUnique, pointed, Object.checkUnique_eq, bind, Except.bind, pure, Except.pure]
    rw [World.setObject_self found]
    rfl
  cases unique : ob.isUnique (s.world.shortId t) with
  | true =>
      rw [unique] at result
      exact .inl ⟨result, inv.alone bound found ((Object.isUnique_eq_true ob _).mp unique)⟩
  | false =>
      rw [unique] at result
      exact .inr result

omit [DecidableEq Var] in
/-- A value that a strong handle points to is not destroyed yet. -/
theorem read (inv : s.Inv) (bound : s.bindings h = some (.brc t o)) {v : Val}
    (contents : s.contents o = some v) : s.read o = .value v := by
  obtain ⟨ob, found, holds⟩ := World.holdsStrong_of_held (inv.held bound)
  have undestroyed := (inv.world.object found).held_undestroyed (holds.trans (le_total ob.strong t))
  simp only [Store.read, Store.value, found, undestroyed, contents, if_true]

/-- What a statement may leave: the invariant, and what it means on variables that share nothing. -/
abbrev Goes (s : Store pw Tid Oid Var Val) (st : Statement Tid Oid Var Val)
    (r : Store pw Tid Oid Var Val × Reply Val) : Prop :=
  r.1.Inv ∧ st.Means s.meanings r.2 r.1.meanings

theorem new (inv : s.Inv) {panicking : Bool} (free : s.bindings h = none)
    (fresh : s.world.objects o = none) :
    Yields Fault.Overflow (Goes s (.new h t o v panicking)) (s.new h t o v panicking) := by
  refine (call_yields (c := .new t o panicking) inv.world fresh ⟨trivial, trivial⟩ rfl).bind ?_
  rintro _ ⟨w, _, rfl, trades⟩
  obtain ⟨kept, meanings⟩ := inv.place fresh trades (by rw [free]; rfl) v
  exact ⟨kept, meanings_of_unbound free, rfl, meanings⟩

theorem getMut (inv : s.Inv) (bound : s.bindings h = some (.brc t o)) :
    Yields Fault.Overflow (Goes s (.getMut h t o v)) (s.getMut t o v) := by
  obtain ⟨old, contents, meaning⟩ := inv.meaning_eq .owned bound rfl
  rcases inv.isUnique bound with ⟨result, alone⟩ | result
  · simp only [Store.getMut, result, bind, Except.bind]
    exact ⟨inv.write o v, old, meaning, .inl ⟨rfl, meanings_write alone bound⟩⟩
  · simp only [Store.getMut, result, bind, Except.bind]
    exact ⟨inv, old, meaning, .inr ⟨rfl, rfl⟩⟩

theorem makeMut (inv : s.Inv) {o' : Oid} {panicking : Bool} (bound : s.bindings h = some (.brc t o))
    (fresh : s.world.objects o' = none)
    (safe : s.Safe (.makeMut h t o o' v panicking)) :
    Yields Fault.Overflow (Goes s (.makeMut h t o o' v panicking))
      (s.makeMut h t o o' v panicking) := by
  obtain ⟨old, contents, meaning⟩ := inv.meaning_eq .owned bound rfl
  rcases inv.isUnique bound with ⟨result, alone⟩ | result
  · simp only [Store.makeMut, result, bind, Except.bind]
    exact ⟨inv.write o v, old, meaning, rfl, meanings_write alone bound⟩
  · simp only [Store.makeMut, result]
    refine (call_yields (c := .new t o' panicking) inv.world fresh ⟨trivial, trivial⟩ rfl).bind ?_
    rintro _ ⟨w, returned, rfl, allocated⟩
    have holds : w.holdsStrong t o := by
      refine World.holdsStrong_of_held ?_
      have before := inv.held bound
      have change := allocated.held t (.brc o)
      simp only [Call.lost, amount_none, Binding.handle] at before change
      omega
    refine (call_yields (s := (s.setWorld w).copy o o') (c := .drop t o panicking) allocated.inv
      holds (safe w returned) rfl).bind ?_
    rintro _ ⟨w', _, rfl, released⟩
    obtain ⟨kept, meanings⟩ :=
      inv.place (h := h) fresh (allocated.exchange released) (by rw [bound]; rfl) v
    rw [← write_copy (w := w)] at kept meanings
    exact ⟨kept, old, meaning, rfl, meanings⟩

theorem tryUnwrap (inv : s.Inv) (bound : s.bindings h = some (.brc t o)) :
    Yields Fault.Overflow (Goes s (.tryUnwrap h t o)) (s.tryUnwrap h t o) := by
  obtain ⟨v, contents, meaning⟩ := inv.meaning_eq .owned bound rfl
  rcases inv.isUnique bound with ⟨result, _⟩ | result
  · simp only [Store.tryUnwrap, result, bind, Except.bind]
    exact ⟨inv.forget, v, meaning, .inl ⟨inv.read bound contents, meanings_assign h none⟩⟩
  · simp only [Store.tryUnwrap, result, bind, Except.bind]
    exact ⟨inv, v, meaning, .inr ⟨rfl, rfl⟩⟩

theorem intoInner (inv : s.Inv) {panicking : Bool} (bound : s.bindings h = some (.brc t o))
    (safe : s.world.CallSafe (.drop t o panicking)) :
    Yields Fault.Overflow (Goes s (.intoInner h t o panicking)) (s.intoInner h t o panicking) := by
  obtain ⟨v, contents, meaning⟩ := inv.meaning_eq .owned bound rfl
  rcases inv.isUnique bound with ⟨result, _⟩ | result
  · simp only [Store.intoInner, result, bind, Except.bind]
    exact ⟨inv.forget, v, meaning, .inl (inv.read bound contents), meanings_assign h none⟩
  · simp only [Store.intoInner, result]
    have holds := World.holdsStrong_of_held (inv.held bound)
    refine (call_yields (c := .drop t o panicking) inv.world holds safe rfl).bind ?_
    rintro _ ⟨w, _, rfl, released⟩
    exact ⟨inv.trade released (by rw [bound]; rfl) rfl nofun, v, meaning, .inr rfl,
      meanings_assign h none⟩

theorem upgrade (inv : s.Inv) (bound : s.bindings h = some (.weak t o)) (free : s.bindings h' = none) :
    Yields Fault.Overflow (Goes s (.upgrade h h' t o)) (s.upgrade h' t o) := by
  obtain ⟨v, contents, meaning⟩ := inv.meaning_eq .snapshot bound rfl
  obtain ⟨ob, found, holds⟩ := World.holdsWeak_of_held (inv.held bound)
  have sound := inv.world.object found
  have pointed : s.world.deref o = .ok ob :=
    World.deref_eq_ok.mpr ⟨found, sound.not_freed_of_weak holds⟩
  simp only [Store.upgrade, pointed, bind, Except.bind]
  refine (sound.incrementStrongUnlessZero (t := t)).bind ?_
  rintro ⟨ob', upgraded⟩ ⟨outcome, adjusts⟩
  have touches := inv.world.setObject_touches found adjusts
  cases upgraded with
  | true =>
      have copied : s.contents (Binding.brc t o).target = some v := contents
      refine ⟨inv.trade (touches.gainBrc found) (by rw [free]; rfl) rfl ?_, v, meaning,
        meanings_of_unbound free, .inl ⟨rfl, ?_⟩⟩
      · rintro _ ⟨⟩
        exact ⟨v, copied⟩
      · refine (meanings_assign h' _).trans ?_
        rw [meanings_setWorld, Option.bind_some, Binding.meaning,
          show (s.setWorld (s.world.setObject o ob')).contents o = some v from copied,
          Option.map_some]
  | false =>
      exact ⟨inv.setWorld (touches.idle found), v, meaning, meanings_of_unbound free,
        .inr ⟨rfl, rfl⟩⟩

theorem exec (inv : s.Inv) {st : Statement Tid Oid Var Val} (enabled : s.enabled st)
    (safe : s.Safe st) : Yields Fault.Overflow (Goes s st) (s.exec st) := by
  cases st with
  | new h t o v panicking => exact inv.new enabled.1 enabled.2
  | clone h h' t o panicking =>
      obtain ⟨bound, free⟩ := enabled
      have holds := World.holdsStrong_of_held (inv.held bound)
      exact inv.copy (c := .clone t o panicking) bound free holds safe rfl rfl rfl rfl rfl rfl
  | cloneNoCollect h h' t o =>
      obtain ⟨bound, free⟩ := enabled
      have holds := World.holdsStrong_of_held (inv.held bound)
      exact inv.copy (c := .cloneNoCollect t o) bound free holds safe rfl rfl rfl rfl rfl rfl
  | cloneShared h h' t o =>
      obtain ⟨bound, free⟩ := enabled
      have holds := World.holdsStrong_of_held (inv.held bound)
      exact inv.copy (c := .cloneShared t o) bound free holds safe rfl rfl rfl rfl rfl rfl
  | incrementStrongCount h h' t o =>
      obtain ⟨bound, free⟩ := enabled
      have holds := World.holdsStrong_of_held (inv.held bound)
      exact inv.copy (c := .cloneNoCollect t o) bound free holds safe rfl rfl rfl rfl rfl rfl
  | downgrade h h' t o =>
      obtain ⟨bound, free⟩ := enabled
      have holds := World.holdsStrong_of_held (inv.held bound)
      exact inv.copy (c := .downgrade t o) bound free holds ⟨trivial, trivial⟩ rfl rfl rfl rfl rfl rfl
  | cloneWeak h h' t o =>
      obtain ⟨bound, free⟩ := enabled
      have holds := World.holdsWeak_of_held (inv.held bound)
      exact inv.copy (c := .cloneWeak t o) bound free holds ⟨trivial, trivial⟩ rfl rfl rfl rfl rfl rfl
  | drop h t o panicking =>
      have holds := World.holdsStrong_of_held (inv.held enabled)
      exact inv.release (c := .drop t o panicking) enabled holds safe rfl rfl rfl rfl
  | dropNoCollect h t o | decrementStrongCount h t o =>
      have holds := World.holdsStrong_of_held (inv.held enabled)
      exact inv.release (c := .dropNoCollect t o) enabled holds safe rfl rfl rfl rfl
  | dropWeak h t o =>
      have holds := World.holdsWeak_of_held (inv.held enabled)
      exact inv.release (c := .dropWeak t o) enabled holds ⟨trivial, trivial⟩ rfl rfl rfl rfl
  | upgrade h h' t o => exact inv.upgrade enabled.1 enabled.2
  | deref h t o =>
      obtain ⟨v, contents, meaning⟩ := inv.meaning_eq .owned enabled rfl
      obtain ⟨ob, found, holds⟩ := World.holdsStrong_of_held (inv.held enabled)
      have pointed : s.world.deref o = .ok ob :=
        World.deref_eq_ok.mpr ⟨found, (inv.world.object found).not_freed_of_strong holds⟩
      simp only [Store.exec, pointed, bind, Except.bind]
      exact ⟨inv, v, meaning, inv.read enabled contents, rfl⟩
  | getMut h t o v => exact inv.getMut enabled
  | makeMut h t o o' v panicking => exact inv.makeMut enabled.1 enabled.2 safe
  | tryUnwrap h t o => exact inv.tryUnwrap enabled
  | intoInner h t o panicking => exact inv.intoInner enabled safe
  | intoRaw h t o | fromRaw h t o => exact inv.relabel enabled rfl rfl rfl
  | forget h t o =>
      obtain ⟨v, _, meaning⟩ := inv.meaning_eq .owned enabled rfl
      exact ⟨inv.forget, v, meaning, rfl, meanings_assign h none⟩
  | send h t t' o =>
      have holds := World.holdsStrong_of_held (inv.held enabled)
      exact inv.move (c := .send t t' o) enabled holds ⟨trivial, trivial⟩ rfl rfl rfl rfl rfl rfl
  | sendWeak h t t' o =>
      have holds := World.holdsWeak_of_held (inv.held enabled)
      exact inv.move (c := .sendWeak t t' o) enabled holds ⟨trivial, trivial⟩ rfl rfl rfl rfl rfl rfl
  | collect t panicking =>
      exact inv.unnoticed (c := .collect t panicking) trivial ⟨trivial, trivial⟩ rfl rfl rfl
  | collectForce t => exact inv.unnoticed (c := .collectForce t) trivial ⟨trivial, trivial⟩ rfl rfl rfl
  | threadDeath t => exact inv.unnoticed (c := .threadDeath t) trivial ⟨trivial, trivial⟩ rfl rfl rfl

end Inv

omit [DecidableEq Var] in
theorem Inv.initial : (Store.initial : Store pw Tid Oid Var Val).Inv where
  world := .vacant 0 false
  covered t handle := (tally_const_zero (amount_none t handle)).le.trans (Nat.zero_le _)
  filled := nofun

end Store

/-- The statements where nothing is shared. -/
def unshared (Tid Oid Var Val : Type) [DecidableEq Var] :
    System (Var → Option (Meaning Val)) (Statement Tid Oid Var Val × Reply Val) where
  start meanings := meanings = fun _ => none
  step meanings step meanings' := step.1.Means meanings step.2 meanings'

variable [Fintype Tid] {Var Val : Type} [DecidableEq Var] [Fintype Var] [DecidableEq Val]

/-- A safe program gets the answers it would get if nothing were shared. It stops on nothing but
    a count that overflows. -/
theorem sharing_unnoticed {s : Store pw Tid Oid Var Val} {labels}
    (run : Run ((programs pw Tid Oid Var Val).restrict fun s step => s.Safe step.1) .initial labels s) :
    Run (unshared Tid Oid Var Val) (fun _ => none) labels s.meanings ∧
      ∀ st fault, s.enabled st → s.Safe st → s.exec st = .error fault → fault.Overflow := by
  have simulated : ∃ meanings, Run (unshared Tid Oid Var Val) (fun _ => none)
      (labels.filterMap some) meanings ∧ (s.Inv ∧ s.meanings = meanings) := by
    refine run.simulation (R := fun _ s meanings => s.Inv ∧ s.meanings = meanings) ⟨.initial, rfl⟩ ?_
    rintro _ s step s' _ ⟨inv, rfl⟩ ⟨safe, taken⟩
    obtain ⟨enabled, returned⟩ := programs_step.mp taken
    obtain ⟨kept, means⟩ := (inv.exec enabled safe).of_ok returned
    exact ⟨s'.meanings, means, kept, rfl⟩
  obtain ⟨_, follows, inv, rfl⟩ := simulated
  rw [List.filterMap_some] at follows
  refine ⟨follows, ?_⟩
  intro st fault enabled safe stopped
  exact (inv.exec enabled safe).of_error stopped

/-- A shared value is copied before it is written, and a weak handle keeps the old one. -/
theorem sharing_unnoticed_by_copy :
    ∃ meanings, Run (unshared (Fin 2) (Fin 2) (Fin 4) Bool) (fun _ => none)
      [(.new 0 0 0 false false, .done), (.clone 0 1 0 0 false, .done), (.send 1 0 1 0, .done),
        (.getMut 0 0 0 true, .refused), (.downgrade 1 2 1 0, .done),
        (.makeMut 0 0 0 1 true false, .done), (.deref 1 1 0, .value false),
        (.upgrade 2 3 1 0, .done), (.deref 3 1 0, .value false), (.deref 0 0 1, .value true),
        (.tryUnwrap 0 0 1, .value true)] meanings := by
  obtain ⟨s, ends⟩ := Option.isSome_iff_exists.mp
    (show (replay (guarded (fun (s : Store .w64 (Fin 2) (Fin 2) (Fin 4) Bool) step => s.Safe step.1)
      Store.next) .initial
      [(.new 0 0 0 false false, .done), (.clone 0 1 0 0 false, .done), (.send 1 0 1 0, .done),
        (.getMut 0 0 0 true, .refused), (.downgrade 1 2 1 0, .done),
        (.makeMut 0 0 0 1 true false, .done), (.deref 1 1 0, .value false),
        (.upgrade 2 3 1 0, .done), (.deref 3 1 0, .value false), (.deref 0 0 1, .value true),
        (.tryUnwrap 0 0 1, .value true)]).isSome = true by decide +kernel)
  exact ⟨s.meanings, (sharing_unnoticed (.of_replay ends)).1⟩

end BiasedRc
