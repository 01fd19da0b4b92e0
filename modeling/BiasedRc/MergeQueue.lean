import BiasedRc.Lib.Tally
import BiasedRc.Lib.Transition
import BiasedRc.World

/-! # The merge queue of one thread

Any number of calls of `queue_object`, the collections of the owner with those
that its deferred destructors make, and the destructor of the owner's state.
Each access to the flag, to the queue and to the reference count of the queue is
a step of its own. A call of `queue_object` stands for the object it was made
with.

The flag is set after a push by an exchange that may find it set already, and a
collection clears it after it has found the queue empty, so the collection looks
once more. A destructor that unwinds takes this second look away.
-/

namespace BiasedRc


open Tally Transition System

/-- `ObjectQueue::do_process` in the destructor of the queue. -/
inductive DrainPc (Call : Type) where
  | pop
  | merge (object : Call)
  deriving DecidableEq

/-- The next access of a call of `queue_object`. -/
inductive PushPc (Call : Type) where
  | before
  | upgrade
  | push
  | exchange
  | release
  /-- The call has released the last reference to the queue. -/
  | drain (pc : DrainPc Call)
  | loadFlag
  | merge
  | returned
  deriving DecidableEq

/-- The next access of a collection. -/
inductive CollectPc (Call : Type) where
  /-- `currently_needs_collect` and `collect_slow`. -/
  | needsLoad
  | slowLoad
  /-- `collect_force`. -/
  | forceLoad
  | upgrade
  | pop
  | merge (object : Call)
  /-- A destructor that `explicit_merge` calls. -/
  | running
  | exchange
  | check
  | release
  deriving DecidableEq

/-- A collection under way; `again` once its loop has made its exchange. -/
structure Collection (Call : Type) where
  pc : CollectPc Call
  nounwind : Bool
  again : Bool
  deriving DecidableEq

/-- The owner: its collections with the innermost first, or the destructor of its state. -/
inductive OwnerPc (Call : Type) where
  | live (collections : List (Collection Call))
  | swapDying
  | dropQueue
  | drain (pc : DrainPc Call)
  | switchDead
  | dead
  deriving DecidableEq

/-- A call of `explicit_merge`: where it ran, and whether the owner had cleared its id. -/
structure Merge (Call : Type) where
  object : Call
  onOwner : Bool
  cleared : Bool
  deriving DecidableEq

/-- The assertions, and the abort of `abort_unwind`. -/
inductive QueueFault where
  | liveWithoutQueue
  | notLive
  | notDying
  | droppedByCollection
  | unwound
  deriving DecidableEq

/-- The flag, the queue with its strong count, and the calls. -/
structure MergeQueue (Call : Type) where
  flag : ThreadStateFlag
  queue : List Call
  strong : Nat
  pushers : Call → PushPc Call
  owner : OwnerPc Call
  /-- The owner's short id is gone from its fast thread local. -/
  cleared : Bool
  merges : List (Merge Call)
  fault : Option QueueFault

/-- `collect`, `collect_nounwind` and `collect_force`. -/
inductive CollectKind where
  | collect
  | collectNounwind
  | collectForce
  deriving DecidableEq

/-- The steps. `panicking` is `std::thread::panicking()`. -/
inductive QueueAct (Call : Type) where
  | push (p : Call)
  | collect (kind : CollectKind)
  | advance (panicking : Bool)
  | unwind
  | destroy
  deriving DecidableEq

/-- Where a collection begins. -/
def CollectKind.start {Call : Type} : CollectKind → Collection Call
  | .collect => ⟨.needsLoad, false, false⟩
  | .collectNounwind => ⟨.needsLoad, true, false⟩
  | .collectForce => ⟨.forceLoad, false, false⟩

/-- The collection is inside `collect_force`. -/
def CollectPc.inForce {Call : Type} : CollectPc Call → Bool
  | .needsLoad | .slowLoad => false
  | _ => true

/-- The collection holds a reference to the queue. -/
def CollectPc.holds {Call : Type} : CollectPc Call → Bool
  | .pop | .merge _ | .running | .exchange | .check | .release => true
  | _ => false

/-- The collection is in the loop of `collect_force`. -/
def CollectPc.looping {Call : Type} : CollectPc Call → Bool
  | .pop | .merge _ | .running | .exchange | .check => true
  | _ => false

namespace MergeQueue

variable {Call : Type} [DecidableEq Call]

def initial : MergeQueue Call where
  flag := .live
  queue := []
  strong := 1
  pushers := fun _ => .before
  owner := .live []
  cleared := false
  merges := []
  fault := none

def goto (s : MergeQueue Call) (p : Call) (pc : PushPc Call) : MergeQueue Call :=
  { s with pushers := Function.update s.pushers p pc }

/-- `explicit_merge` of an object. -/
def merged (s : MergeQueue Call) (object : Call) (onOwner : Bool) : MergeQueue Call :=
  { s with merges := s.merges ++ [⟨object, onOwner, s.cleared⟩] }

def fail (s : MergeQueue Call) (fault : QueueFault) : MergeQueue Call :=
  { s with fault := some fault }

/-- The next access of the call that pushes `p`. -/
def pushStep (s : MergeQueue Call) (p : Call) : Option (MergeQueue Call) :=
  match s.pushers p with
  | .before => some (s.goto p .upgrade)
  | .upgrade =>
      if s.strong = 0 then some (s.goto p .loadFlag)
      else some ({ s with strong := s.strong + 1 }.goto p .push)
  | .push => some ({ s with queue := s.queue ++ [p] }.goto p .exchange)
  | .exchange => some ({ s with flag := s.flag.markQueued }.goto p .release)
  | .release =>
      some ({ s with strong := s.strong - 1 }.goto p
        (if s.strong = 1 then .drain .pop else .returned))
  | .drain .pop =>
      match s.queue with
      | [] => some (s.goto p .returned)
      | object :: rest => some ({ s with queue := rest }.goto p (.drain (.merge object)))
  | .drain (.merge object) => some ((s.merged object false).goto p (.drain .pop))
  | .loadFlag =>
      if s.flag.isLive then some (s.fail .liveWithoutQueue) else some (s.goto p .merge)
  | .merge => some ((s.merged p false).goto p .returned)
  | .returned => none

/-- The innermost collection goes on, or returns. -/
def collecting (s : MergeQueue Call) (collections : List (Collection Call)) : MergeQueue Call :=
  { s with owner := .live collections }

/-- The innermost collection gives up its reference, and returns or unwinds. -/
def leave (s : MergeQueue Call) (outer : List (Collection Call)) : MergeQueue Call :=
  if s.strong = 1 then s.fail .droppedByCollection
  else { s with strong := s.strong - 1 }.collecting outer

/-- The next access of the innermost collection `c`. -/
def collectStep (s : MergeQueue Call) (c : Collection Call) (outer : List (Collection Call))
    (panicking : Bool) : MergeQueue Call :=
  match c.pc with
  | .needsLoad =>
      s.collecting (if s.flag = .live then outer else { c with pc := .slowLoad } :: outer)
  | .slowLoad =>
      s.collecting
        (if panicking || s.flag = .live then outer else { c with pc := .forceLoad } :: outer)
  | .forceLoad =>
      s.collecting (if s.flag.isLive then { c with pc := .upgrade } :: outer else outer)
  | .upgrade =>
      if s.strong = 0 then s.collecting outer
      else { s with strong := s.strong + 1 }.collecting ({ c with pc := .pop } :: outer)
  | .pop =>
      match s.queue with
      | [] => s.collecting ({ c with pc := .exchange } :: outer)
      | object :: rest =>
          { s with queue := rest }.collecting ({ c with pc := .merge object } :: outer)
  | .merge object => (s.merged object true).collecting ({ c with pc := .running } :: outer)
  | .running => s.collecting ({ c with pc := .pop } :: outer)
  | .exchange =>
      { s with flag := s.flag.markLive }.collecting ({ c with pc := .check, again := true } :: outer)
  | .check =>
      s.collecting
        ((if s.queue = [] then { c with pc := .release, again := false } else { c with pc := .pop })
          :: outer)
  | .release => s.leave outer

/-- A destructor, or `explicit_merge` itself, unwinds out of the innermost collection. -/
def unwind (s : MergeQueue Call) (c : Collection Call) (outer : List (Collection Call)) :
    Option (MergeQueue Call) :=
  match c.pc with
  | .merge _ | .running => some (if c.nounwind then s.fail .unwound else s.leave outer)
  | _ => none

/-- The next access of the destructor of the owner's state. -/
def destroyStep (s : MergeQueue Call) : Option (MergeQueue Call) :=
  match s.owner with
  | .live [] => some { s with cleared := true, owner := .swapDying }
  | .live (_ :: _) => none
  | .swapDying =>
      if s.flag.isLive then some { s with flag := .dying, owner := .dropQueue }
      else some (s.fail .notLive)
  | .dropQueue =>
      some { s with
        strong := s.strong - 1
        owner := if s.strong = 1 then .drain .pop else .switchDead }
  | .drain .pop =>
      match s.queue with
      | [] => some { s with owner := .switchDead }
      | object :: rest => some { s with queue := rest, owner := .drain (.merge object) }
  | .drain (.merge object) => some { s.merged object true with owner := .drain .pop }
  | .switchDead =>
      if s.flag = .dying then some { s with flag := .dead, owner := .dead }
      else some (s.fail .notDying)
  | .dead => none

/-- A collection can be started by the owner's own code, or from a destructor that runs. -/
def mayCollect : List (Collection Call) → Bool
  | [] => true
  | c :: _ => c.pc = .running

def next (s : MergeQueue Call) (act : QueueAct Call) : Option (MergeQueue Call) :=
  if s.fault.isSome then none
  else
    match act, s.owner with
    | .push p, _ => s.pushStep p
    | .collect kind, .live collections =>
        if mayCollect collections then some (s.collecting (kind.start :: collections)) else none
    | .advance panicking, .live (c :: outer) => some (s.collectStep c outer panicking)
    | .unwind, .live (c :: outer) => s.unwind c outer
    | .destroy, _ => s.destroyStep
    | _, _ => none

/-- Which part of the model takes each step. -/
inductive Step (s : MergeQueue Call) : QueueAct Call → MergeQueue Call → Prop where
  | push {p s'} (taken : s.pushStep p = some s') : s.Step (.push p) s'
  | collect {kind collections} (live : s.owner = .live collections) :
      s.Step (.collect kind) (s.collecting (kind.start :: collections))
  | advance {panicking c outer} (live : s.owner = .live (c :: outer)) :
      s.Step (.advance panicking) (s.collectStep c outer panicking)
  | unwind {c outer s'} (live : s.owner = .live (c :: outer)) (taken : s.unwind c outer = some s') :
      s.Step .unwind s'
  | destroy {s'} (taken : s.destroyStep = some s') : s.Step .destroy s'

theorem step_of_next {s s' : MergeQueue Call} {act} (taken : s.next act = some s') :
    s.Step act s' := by
  simp only [next, Option.ite_none_left_eq_some] at taken
  obtain ⟨_, taken⟩ := taken
  split at taken
  · exact .push taken
  · rename_i live
    simp only [Option.ite_none_right_eq_some, Option.some.injEq] at taken
    exact taken.2 ▸ .collect live
  · rename_i live
    exact Option.some.inj taken ▸ .advance live
  · rename_i live
    exact .unwind live taken
  · exact .destroy taken
  · cases taken

def system (Call : Type) [DecidableEq Call] : System (MergeQueue Call) (QueueAct Call) :=
  ofNext (fun s => s = .initial) next

/-- A live owner that is not inside `collect_force` will see what is in its queue, once
    every push has been followed by its exchange. -/
def Noticed (s : MergeQueue Call) : Prop :=
  ∀ collections, s.owner = .live collections → (∀ c ∈ collections, c.pc.inForce = false) →
    (∀ p, s.pushers p ≠ .exchange) → s.queue ≠ [] → s.flag ≠ .live

/-- No destructor unwinds out of a later pass of the loop and leaves objects behind that
    the cleared flag does not show. -/
def UnwindsCovered (s : MergeQueue Call) : QueueAct Call → Prop
  | .unwind =>
      match s.owner with
      | .live (c :: _) => ¬ (c.again = true ∧ s.flag = .live ∧ s.queue ≠ [])
      | _ => True
  | _ => True

instance (s : MergeQueue Call) (act : QueueAct Call) : Decidable (s.UnwindsCovered act) := by
  unfold UnwindsCovered
  split
  · split <;> infer_instance
  · infer_instance

theorem goto_other {s : MergeQueue Call} {p q : Call} {pc : PushPc Call} (other : q ≠ p) :
    (s.goto p pc).pushers q = s.pushers q := Function.update_of_ne other ..

@[simp] theorem goto_self {s : MergeQueue Call} {p : Call} {pc : PushPc Call} :
    (s.goto p pc).pushers p = pc := Function.update_self ..

/-- What is in the queue is shown by the flag, about to be shown by a push, or to be looked
    for once more by a collection. -/
def Covered (s : MergeQueue Call) (collections : List (Collection Call)) : Prop :=
  s.queue ≠ [] → s.flag ≠ .live ∨ (∃ p, s.pushers p = .exchange) ∨
    ∃ c ∈ collections, c.again = true

/-- The invariant of a live owner. -/
structure Watched (s : MergeQueue Call) : Prop where
  looping : ∀ collections, s.owner = .live collections →
    ∀ c ∈ collections, c.again = true → c.pc.looping = true
  covered : ∀ collections, s.owner = .live collections → s.Covered collections

namespace Watched

variable {s s' : MergeQueue Call} {c : Collection Call} {outer : List (Collection Call)}

section

omit [DecidableEq Call]

theorem noticed (watched : s.Watched) : s.Noticed := by
  intro collections live outside settled listed
  rcases watched.covered collections live listed with flag | ⟨p, pending⟩ | ⟨c, mine, again⟩
  · exact flag
  · exact absurd pending (settled p)
  · have looping := watched.looping collections live c mine again
    have free := outside c mine
    cases pc : c.pc <;> simp [pc, CollectPc.looping, CollectPc.inForce] at looping free

theorem recount (watched : s.Watched) (strong : Nat) : ({ s with strong }).Watched :=
  ⟨watched.looping, watched.covered⟩

theorem fail (watched : s.Watched) (fault : QueueFault) : (s.fail fault).Watched :=
  ⟨watched.looping, watched.covered⟩

end

/-- A step of a push that neither pushes nor makes its exchange. -/
theorem push (watched : s.Watched) {p : Call} {pc : PushPc Call} (owner : s'.owner = s.owner)
    (flag : s'.flag = s.flag) (queue : s'.queue ≠ [] → s.queue ≠ [])
    (pushers : s'.pushers = s.pushers) (before : s.pushers p ≠ .exchange) :
    (s'.goto p pc).Watched where
  looping collections live := watched.looping collections (owner ▸ live)
  covered collections live listed := by
    rcases watched.covered collections (owner ▸ live) (queue listed) with
      shown | ⟨q, pending⟩ | again
    · exact .inl (flag.symm ▸ shown)
    · have other : q ≠ p := by
        rintro rfl
        exact before pending
      exact .inr (.inl ⟨q, by rw [goto_other other, pushers, pending]⟩)
    · exact .inr (.inr again)

theorem pushStep (watched : s.Watched) {p : Call} (taken : s.pushStep p = some s') : s'.Watched := by
  unfold MergeQueue.pushStep at taken
  cases pc : s.pushers p with
  | push =>
      simp only [pc, Option.some.injEq] at taken
      subst taken
      exact ⟨watched.looping, fun _ _ _ => .inr (.inl ⟨p, goto_self⟩)⟩
  | exchange =>
      simp only [pc, Option.some.injEq] at taken
      subst taken
      refine ⟨watched.looping, fun _ _ _ => .inl ?_⟩
      change s.flag.markQueued ≠ .live
      cases s.flag <;> decide
  | drain pc' =>
      cases pc' with
      | pop =>
          simp only [pc] at taken
          split at taken <;> cases taken
          · exact watched.push rfl rfl id rfl (by simp [pc])
          · rename_i listed
            exact watched.push rfl rfl (fun _ => by simp [listed]) rfl (by simp [pc])
      | merge object =>
          simp only [pc, Option.some.injEq] at taken
          exact taken ▸ watched.push rfl rfl id rfl (by simp [pc])
  | upgrade =>
      simp only [pc] at taken
      split at taken <;> cases taken <;> exact watched.push rfl rfl id rfl (by simp [pc])
  | loadFlag =>
      simp only [pc] at taken
      split at taken <;> cases taken
      · exact watched.fail _
      · exact watched.push rfl rfl id rfl (by simp [pc])
  | returned => simp [pc] at taken
  | before | release | merge =>
      simp only [pc, Option.some.injEq] at taken
      exact taken ▸ watched.push rfl rfl id rfl (by simp [pc])

omit [DecidableEq Call] in
/-- The innermost collection gives way to `inner`, which looks again if it had to. -/
theorem replace (watched : s.Watched) (live : s.owner = .live (c :: outer))
    (inner : List (Collection Call)) (flag : s'.flag = s.flag) (queue : s'.queue ≠ [] → s.queue ≠ [])
    (pushers : s'.pushers = s.pushers) (looping : ∀ c' ∈ inner, c'.again = true → c'.pc.looping = true)
    (again : c.again = true → s'.queue ≠ [] → s.flag = .live → ∃ c' ∈ inner, c'.again = true) :
    (s'.collecting (inner ++ outer)).Watched where
  looping collections live' c' mine := by
    obtain rfl : inner ++ outer = collections := by simpa [collecting] using live'
    rcases List.mem_append.mp mine with new | old
    · exact looping c' new
    · exact watched.looping _ live c' (List.mem_cons_of_mem _ old)
  covered collections live' listed := by
    obtain rfl : inner ++ outer = collections := by simpa [collecting] using live'
    by_cases shown : s.flag = .live
    · rcases watched.covered _ live (queue listed) with flag' | ⟨p, pending⟩ | ⟨c', mine, again'⟩
      · exact absurd shown flag'
      · exact .inr (.inl ⟨p, by simpa only [collecting, pushers] using pending⟩)
      · rcases List.mem_cons.mp mine with rfl | old
        · obtain ⟨c'', new, again''⟩ := again again' listed shown
          exact .inr (.inr ⟨c'', List.mem_append_left _ new, again''⟩)
        · exact .inr (.inr ⟨c', List.mem_append_right _ old, again'⟩)
    · exact .inl (by simpa only [collecting, flag] using shown)

omit [DecidableEq Call] in
theorem first_pass (watched : s.Watched) (live : s.owner = .live (c :: outer))
    {old : CollectPc Call} (pc : c.pc = old) (outside : old.looping = false) : c.again = false := by
  subst pc
  by_contra again
  have looping := watched.looping _ live c (List.mem_cons_self ..) (by simpa using again)
  cases outside.symm.trans looping

section

omit [DecidableEq Call]

/-- The innermost collection returns before it comes to its loop. -/
theorem returns (watched : s.Watched) (live : s.owner = .live (c :: outer))
    {old : CollectPc Call} (pc : c.pc = old) (outside : old.looping = false) :
    (s.collecting outer).Watched := by
  have first := watched.first_pass live pc outside
  exact watched.replace live [] rfl id rfl (by simp) (by simp [first])

/-- The innermost collection comes closer to its loop. -/
theorem approach (watched : s.Watched) (live : s.owner = .live (c :: outer))
    {old new : CollectPc Call} (pc : c.pc = old) (outside : old.looping = false) :
    (s.collecting ({ c with pc := new } :: outer)).Watched := by
  have first := watched.first_pass live pc outside
  exact watched.replace live [{ c with pc := new }] rfl id rfl (by simp [first]) (by simp [first])

/-- The innermost collection stays in its loop. -/
theorem loop (watched : s.Watched) (live : s.owner = .live (c :: outer)) {pc : CollectPc Call}
    (looping : pc.looping = true) (queue : s'.queue ≠ [] → s.queue ≠ []) (flag : s'.flag = s.flag)
    (pushers : s'.pushers = s.pushers) : (s'.collecting ({ c with pc } :: outer)).Watched :=
  watched.replace live [{ c with pc }] flag queue pushers (by simp [looping])
    fun again _ _ => ⟨_, List.mem_singleton_self _, again⟩

/-- The innermost collection leaves where it has nothing to look for. -/
theorem leave (watched : s.Watched) (live : s.owner = .live (c :: outer))
    (safe : ¬ (c.again = true ∧ s.flag = .live ∧ s.queue ≠ [])) : (s.leave outer).Watched := by
  unfold MergeQueue.leave
  split
  · exact watched.fail _
  · exact watched.replace live [] rfl id rfl (by simp)
      fun again listed shown => absurd ⟨again, shown, listed⟩ safe

omit [DecidableEq Call] in

end

omit [DecidableEq Call] in
/-- A collection begins. -/
theorem begin (watched : s.Watched) {collections} (live : s.owner = .live collections)
    (kind : CollectKind) : (s.collecting (kind.start :: collections)).Watched := by
  have fresh : (kind.start : Collection Call).again = false := by cases kind <;> rfl
  refine ⟨?_, ?_⟩
  · intro collections' live' c mine again
    obtain rfl : kind.start :: collections = collections' := by simpa [collecting] using live'
    rcases List.mem_cons.mp mine with rfl | old
    · cases fresh.symm.trans again
    · exact watched.looping _ live c old again
  · intro collections' live' listed
    obtain rfl : kind.start :: collections = collections' := by simpa [collecting] using live'
    rcases watched.covered _ live listed with shown | pending | ⟨c, mine, again⟩
    · exact .inl shown
    · exact .inr (.inl pending)
    · exact .inr (.inr ⟨c, List.mem_cons_of_mem _ mine, again⟩)

omit [DecidableEq Call] in
/-- The destructor of the owner's state. -/
theorem of_dying (dying : ∀ collections, s.owner ≠ .live collections) : s.Watched :=
  ⟨fun collections live => absurd live (dying collections),
    fun collections live => absurd live (dying collections)⟩

omit [DecidableEq Call] in
theorem destroyStep (watched : s.Watched) (taken : s.destroyStep = some s') : s'.Watched := by
  unfold MergeQueue.destroyStep at taken
  split at taken
  · cases taken
    exact .of_dying (by simp)
  · cases taken
  · split at taken <;> cases taken
    · exact .of_dying (by simp)
    · exact watched.fail _
  · cases taken
    exact .of_dying fun collections => by split <;> simp
  · split at taken <;> cases taken <;> exact .of_dying (by simp)
  · cases taken
    exact .of_dying (by simp)
  · split at taken <;> cases taken
    · exact .of_dying (by simp)
    · exact watched.fail _
  · cases taken

omit [DecidableEq Call] in
theorem collectStep (watched : s.Watched) (live : s.owner = .live (c :: outer)) (panicking : Bool) :
    (s.collectStep c outer panicking).Watched := by
  unfold MergeQueue.collectStep
  cases pc : c.pc with
  | needsLoad | slowLoad =>
      simp only
      split
      · exact watched.returns live pc rfl
      · exact watched.approach live pc rfl
  | forceLoad =>
      simp only
      split
      · exact watched.approach live pc rfl
      · exact watched.returns live pc rfl
  | upgrade =>
      simp only
      split
      · exact watched.returns live pc rfl
      · exact (watched.recount (s.strong + 1)).approach live pc rfl
  | pop =>
      simp only
      split
      · exact watched.loop live rfl id rfl rfl
      · rename_i listed
        exact watched.loop live rfl (fun _ => by simp [listed]) rfl rfl
  | merge object => exact watched.loop live rfl id rfl rfl
  | running => exact watched.loop live rfl id rfl rfl
  | exchange =>
      -- the flag may now hide what was pushed since the queue was found empty
      refine ⟨?_, ?_⟩
      · intro collections live' c' mine again
        obtain rfl : _ :: outer = collections := by simpa [collecting] using live'
        rcases List.mem_cons.mp mine with rfl | old
        · rfl
        · exact watched.looping _ live c' (List.mem_cons_of_mem _ old) again
      · intro collections live' _
        obtain rfl : _ :: outer = collections := by simpa [collecting] using live'
        exact .inr (.inr ⟨_, List.mem_cons_self .., rfl⟩)
  | check =>
      simp only
      split
      · rename_i empty
        exact watched.replace live [_] rfl id rfl (by simp)
          fun _ listed => absurd empty listed
      · exact watched.loop live rfl id rfl rfl
  | release =>
      have first := watched.first_pass live pc rfl
      exact watched.leave live (by simp [first])

/-- Every step that unwinds covered. -/
theorem next (watched : s.Watched) {act : QueueAct Call} (safe : s.UnwindsCovered act)
    (taken : s.next act = some s') : s'.Watched := by
  cases step_of_next taken with
  | push taken => exact watched.pushStep taken
  | collect live => exact watched.begin live _
  | advance live => exact watched.collectStep live _
  | @unwind c outer _ live taken =>
      unfold MergeQueue.unwind at taken
      have left : (if c.nounwind then s.fail .unwound else s.leave outer).Watched := by
        split
        · exact watched.fail _
        · exact watched.leave live (by simpa only [UnwindsCovered, live] using safe)
      split at taken <;> cases taken <;> exact left
  | destroy taken => exact watched.destroyStep taken

end Watched

/-- In runs whose unwinds are covered no push is lost on a live owner. -/
theorem no_lost_wakeup {s : MergeQueue Call}
    (reached : ((system Call).restrict UnwindsCovered).Reachable s) : s.Noticed := by
  have watched : s.Watched := by
    refine reached.invariant (P := Watched) ?_ ?_
    · rintro _ rfl
      exact ⟨by simp [initial], fun _ _ listed => absurd rfl listed⟩
    · exact fun _ _ _ before taken => before.next taken.1 taken.2
  exact watched.noticed

/-- A whole call of `queue_object` on a queue that is alive. -/
def pushAll (p : Call) : List (QueueAct Call) := List.replicate 5 (.push p)

/-- A destructor unwinds in the first pass of the loop. -/
theorem no_lost_wakeup_after_unwind : ∃ s : MergeQueue (Fin 2),
    s.owner = .live [] ∧ s.queue = [1] ∧ s.flag ≠ .live := by
  have start : ((system (Fin 2)).restrict UnwindsCovered).Reachable initial := .start rfl
  obtain ⟨s, reached, live, queue, settled⟩ := start.of_replay
    (pushAll 0 ++ pushAll 1 ++ [.collect .collect] ++ List.replicate 6 (.advance false) ++ [.unwind])
    (fun s => s.owner = .live [] ∧ s.queue = [1] ∧ ∀ p, s.pushers p ≠ .exchange) (by decide +kernel)
  exact ⟨s, live, queue, no_lost_wakeup reached [] live (by simp) settled (by simp [queue])⟩

/-- Two pushes find the flag set, the exchange clears it, and the destructor of the first
    object unwinds in the second pass. -/
theorem push_lost_after_unwind :
    ¬ ∀ s : MergeQueue (Fin 3), (system (Fin 3)).Reachable s → s.Noticed := by
  intro noticed
  have start : ((system (Fin 3)).restrict fun _ _ => True).Reachable initial := .start rfl
  obtain ⟨s, reached, live, settled, listed, flag⟩ := start.of_replay
    (pushAll 0 ++ [.collect .collectForce] ++ List.replicate 6 (.advance false) ++
      pushAll 1 ++ pushAll 2 ++ List.replicate 4 (.advance false) ++ [.unwind])
    (fun s => s.owner = .live [] ∧ (∀ p, s.pushers p ≠ .exchange) ∧ s.queue ≠ [] ∧ s.flag = .live)
    (by decide +kernel)
  exact noticed s reached.of_restrict [] live (by simp) settled listed flag

end MergeQueue

end BiasedRc
