import BiasedRc.DestructorSteps

/-! # Uninterrupted calls as runs of single steps

Where values hold no handles, a destructor ends in the step after it began. Then
the steps of one call, taken in a row, do what the call does when it is a single
step, and every run of whole calls is a run of single steps.
-/

namespace BiasedRc

open Tally Outcome Transition System

namespace Process

variable {pw : PointerWidth} {Tid Oid : Type} [DecidableEq Tid] [DecidableEq Oid] [Fintype Tid]
  [Fintype Oid] {s s' s'' : Process pw Tid Oid} {t : Tid} {o : Oid}
  {w w' : World pw (Holder Tid Oid) Oid} {id : ShortThreadId} {rest : List (Frame Oid)}

/-- Some run leads from one state to the other. -/
def Leads (s s' : Process pw Tid Oid) : Prop := ∃ labels, Run (processes pw Tid Oid) s labels s'

theorem Leads.refl : s.Leads s := ⟨[], .nil⟩

theorem Leads.single {a : Action Tid Oid} (enabled : s.enabled a) (returned : s.act a = .ok s') :
    s.Leads s' := ⟨[a], .cons (processes_step.mpr ⟨enabled, returned⟩) .nil⟩

theorem Leads.trans (first : s.Leads s') (second : s'.Leads s'') : s.Leads s'' := by
  obtain ⟨labels, run⟩ := first
  obtain ⟨labels', run'⟩ := second
  exact ⟨labels ++ labels', run.trans run'⟩

/-- The innermost call takes a step. -/
theorem Leads.of_step {frame : Frame Oid} (top : s.stack t = frame :: rest)
    (goes : frame.canStep = true) (returned : s.step t = .ok s') : s.Leads s' := by
  refine .single (a := .step t) ?_ returned
  simp only [enabled, top, List.head?_cons, Option.any_some, goes]

omit [DecidableEq Tid] [DecidableEq Oid] [Fintype Tid] [Fintype Oid] in
theorem setOrphaned_self {queue : List Oid} (here : s.orphaned id = queue) :
    s.setOrphaned id queue = s := by
  rw [setOrphaned, ← here, Function.update_eq_self]

/-- No value holds a handle. -/
def Plain (s : Process pw Tid Oid) : Prop := ∀ o, s.fields o = []

omit [DecidableEq Oid] [Fintype Tid] [Fintype Oid] in
theorem setStack_push {frames : List (Frame Oid)} :
    (s.push t frames).setStack t (s.stack t) = s := by
  simp only [push, setStack, Function.update_idem, Function.update_eq_self]

omit [DecidableEq Tid] [Fintype Tid] [Fintype Oid] in
theorem setObject_setObject {ob ob' : Object pw (Holder Tid Oid)} :
    (s.setObject o ob).setObject o ob' = s.setObject o ob' := by
  simp only [setObject, setWorld, World.setObject_setObject]

theorem destroy_setStack {ob : Object pw (Holder Tid Oid)} :
    (s.destroy t o ob).setStack t (s.stack t) = s.setObject o (ob.beginDealloc (.thread t)) :=
  setStack_push

/-- The weak guard is dropped right after the value. -/
theorem Plain.destroy (plain : s.Plain) {ob : Object pw (Holder Tid Oid)}
    (allocated : ob.freed = false) : (s.destroy t o ob).Leads (s.setObject o ob.dealloc) := by
  have top : (s.destroy t o ob).stack t = .glue o :: s.stack t := stack_push_self
  have none : (s.destroy t o ob).fields o = [] := plain o
  have found : (s.setObject o (ob.beginDealloc (.thread t))).world.objects o =
      some (ob.beginDealloc (.thread t)) := World.objects_setObject_self
  refine .of_step top rfl ?_
  simp only [step, top, none, destroy_setStack, onObject, World.onObject,
    World.deref_eq_ok.mpr ⟨found, allocated⟩]
  rw [← Object.releaseWeak_beginDealloc ob (.thread t)]
  exact congrArg Except.ok setObject_setObject

omit [DecidableEq Tid] [Fintype Tid] [Fintype Oid] in
theorem onObject_of_world {op : Object pw (Holder Tid Oid) → Except Fault (Object pw (Holder Tid Oid))}
    (returned : s.world.onObject o op = .ok w) : s.onObject o op = .ok (s.setWorld w) := by
  rw [onObject, returned]
  rfl

theorem Plain.explicitMerge (plain : s.Plain) (returned : s.world.explicitMerge id o = .ok w) :
    ∃ s', s.explicitMerge t id o = .ok s' ∧ s'.Leads (s.setWorld w) := by
  rw [World.explicitMerge, World.onObject] at returned
  cases pointed : s.world.deref o with
  | error fault =>
      rw [pointed] at returned
      cases returned
  | ok ob =>
      obtain ⟨found, allocated⟩ := World.deref_eq_ok.mp pointed
      rw [pointed] at returned
      simp only [bind, Except.bind, Object.explicitMerge_eq] at returned
      rw [Process.explicitMerge, pointed]
      cases merging : ob.mergeCounts id with
      | error fault =>
          rw [merging] at returned
          cases returned
      | ok result =>
          obtain ⟨ob', dead⟩ := result
          have memory := (Object.mergeCounts_sameMemory id).of_ok merging
          rw [merging] at returned
          cases dead with
          | true =>
              have same : s.world.setObject o ob'.dealloc = w := Except.ok.inj returned
              refine ⟨s.destroy t o ob', by simp only [bind, Except.bind, merging]; rfl, ?_⟩
              rw [← same]
              exact plain.destroy (memory.freed.trans allocated)
          | false =>
              have same : s.world.setObject o ob' = w := Except.ok.inj returned
              refine ⟨s.setObject o ob', by simp only [bind, Except.bind, merging]; rfl, ?_⟩
              rw [← same]
              exact .refl

omit [DecidableEq Tid] in
/-- The registry is not involved in a merge. -/
theorem explicitMerge_setInfo {info : SharedThreadInfo Oid} {id' : ShortThreadId}
    (returned : w.explicitMerge id o = .ok w') :
    (w.setInfo id' info).explicitMerge id o = .ok (w'.setInfo id' info) := by
  rw [World.explicitMerge, World.onObject] at returned ⊢
  have pointed : (w.setInfo id' info).deref o = w.deref o := rfl
  rw [pointed]
  cases target : w.deref o with
  | error fault =>
      rw [target] at returned
      cases returned
  | ok ob =>
      rw [target] at returned
      simp only [bind, Except.bind] at returned ⊢
      cases merged : ob.explicitMerge id with
      | error fault =>
          rw [merged] at returned
          cases returned
      | ok ob' =>
          rw [merged] at returned
          rw [← Except.ok.inj returned]
          rfl

omit [DecidableEq Tid] in
theorem threads_explicitMerge (returned : w.explicitMerge id o = .ok w') :
    w'.getById = w.getById ∧ w'.fast = w.fast := by
  rw [World.explicitMerge, World.onObject] at returned
  cases target : w.deref o with
  | error fault =>
      rw [target] at returned
      cases returned
  | ok ob =>
      rw [target] at returned
      simp only [bind, Except.bind] at returned
      cases merged : ob.explicitMerge id with
      | error fault =>
          rw [merged] at returned
          cases returned
      | ok ob' =>
          rw [merged] at returned
          rw [← Except.ok.inj returned]
          exact ⟨rfl, rfl⟩

/-- The rounds of `collect_force` and its last one, which finds the queue empty. -/
theorem Plain.process (plain : s.Plain) {flag : ThreadStateFlag} {queue : List Oid}
    (known : (w.getById id).isSome) (here : s.world = w.setInfo id ⟨flag, some queue⟩)
    (top : s.stack t = .process id :: rest) (returned : World.doProcess id queue w = .ok w') :
    s.Leads ((s.setWorld (w'.setInfo id ⟨flag.markLive, some []⟩)).setStack t rest) := by
  induction queue generalizing s w with
  | nil =>
      obtain rfl : w = w' := Except.ok.inj returned
      refine .of_step top rfl ?_
      simp only [step, top, processNext, here, World.getById_setInfo_self known, World.setInfo_setInfo]
  | cons o queue ih =>
      rw [World.doProcess] at returned
      cases merging : w.explicitMerge id o with
      | error fault =>
          rw [merging] at returned
          cases returned
      | ok w₁ =>
          rw [merging] at returned
          have popped : (s.setWorld (w.setInfo id ⟨flag, some queue⟩)).Plain := plain
          obtain ⟨s₁, merged, leads⟩ :=
            popped.explicitMerge (t := t) (explicitMerge_setInfo merging)
          have stepped : s.step t = .ok s₁ := by
            simp only [step, top, processNext, here, World.getById_setInfo_self known,
              World.setInfo_setInfo]
            exact merged
          have known₁ : (w₁.getById id).isSome := by rwa [(threads_explicitMerge merging).1]
          refine (Leads.of_step top rfl stepped).trans (leads.trans ?_)
          exact ih (s := s.setWorld (w₁.setInfo id ⟨flag, some queue⟩)) plain known₁ rfl top returned

/-- The rounds in the drop of a queue, and the end of the thread. -/
theorem Plain.bury (plain : s.Plain) {queue : List Oid} (here : s.orphaned id = queue)
    (top : s.stack t = .bury id :: rest) (returned : World.doProcess id queue s.world = .ok w') :
    s.Leads (((s.setWorld (w'.setInfo id ⟨.dead, none⟩)).setOrphaned id []).setStack t rest) := by
  induction queue generalizing s with
  | nil =>
      obtain rfl : s.world = w' := Except.ok.inj returned
      have emptied : (s.setWorld (s.world.setInfo id ⟨.dead, none⟩)).orphaned id = [] := here
      refine .of_step top rfl ?_
      simp only [step, top, buryNext, here, setOrphaned_self emptied]
  | cons o queue ih =>
      rw [World.doProcess] at returned
      cases merging : s.world.explicitMerge id o with
      | error fault =>
          rw [merging] at returned
          cases returned
      | ok w₁ =>
          rw [merging] at returned
          have popped : (s.setOrphaned id queue).Plain := plain
          obtain ⟨s₁, merged, leads⟩ := popped.explicitMerge (t := t) merging
          have stepped : s.step t = .ok s₁ := by
            simp only [step, top, buryNext, here]
            exact merged
          refine (Leads.of_step top rfl stepped).trans (leads.trans ?_)
          have later := ih (s := (s.setOrphaned id queue).setWorld w₁) plain orphaned_setOrphaned_self
            top returned
          simp only [setOrphaned, setWorld, Function.update_idem] at later ⊢
          exact later

omit [DecidableEq Oid] [Fintype Tid] [Fintype Oid] in
theorem setWorld_push_setStack {frames : List (Frame Oid)} :
    ((s.push t frames).setWorld w).setStack t (s.stack t) = s.setWorld w := by
  simp only [push, setStack, setWorld, Function.update_idem, Function.update_eq_self]

theorem Plain.collectForceOf (plain : s.Plain) (returned : w.collectForceOf id = .ok w') :
    ((s.setWorld w).push t (w.processFrames id)).Leads (s.setWorld w') := by
  rw [World.collectForceOf] at returned
  rw [World.processFrames]
  cases listed : w.getById id with
  | none =>
      simp only [listed, Except.ok.injEq] at returned
      simp only [push_nil, returned]
      exact .refl
  | some info =>
      simp only [listed] at returned
      cases live : info.stateFlag.isLive with
      | false =>
          simp only [live, Bool.false_eq_true, if_false, Except.ok.injEq] at returned
          simp only [live, Bool.false_and, Bool.false_eq_true, if_false, push_nil, returned]
          exact .refl
      | true =>
          simp only [live, if_true] at returned
          cases queued : info.queuedObjects with
          | none =>
              simp only [queued, Except.ok.injEq] at returned
              simp only [queued, Option.isSome_none, Bool.and_false, Bool.false_eq_true, if_false,
                push_nil, returned]
              exact .refl
          | some queue =>
              simp only [queued] at returned
              cases processed : World.doProcess id queue w with
              | error fault =>
                  rw [processed] at returned
                  cases returned
              | ok w₁ =>
                  rw [processed] at returned
                  have settled : w₁.setInfo id ⟨info.stateFlag.markLive, some []⟩ = w' := by
                    rw [← Except.ok.inj returned]
                    cases flag : info.stateFlag <;> rw [flag] at live <;> first | rfl | cases live
                  have known : (w.getById id).isSome := by rw [listed]; rfl
                  have looping : ((s.setWorld w).push t [.process id]).stack t =
                      .process id :: s.stack t := stack_push_self
                  have leads := Plain.process (s := (s.setWorld w).push t [.process id]) plain known
                    (World.setInfo_listed listed queued).symm looping processed
                  simp only [live, queued, Option.isSome_some, Bool.and_self, if_true]
                  rw [settled] at leads
                  have returns : (((s.setWorld w).push t [.process id]).setWorld w').setStack t
                      (s.stack t) = s.setWorld w' := setWorld_push_setStack
                  rwa [returns] at leads

theorem Plain.collect (plain : s.Plain) {panicking : Bool}
    (returned : w.collect (.thread t) panicking = .ok w') :
    ((s.setWorld (w.startCollect (.thread t) panicking).1).push t
      (w.startCollect (.thread t) panicking).2).Leads (s.setWorld w') := by
  have nothing : ∀ {w₀ : World pw (Holder Tid Oid) Oid}, w₀ = w' →
      ((s.setWorld w₀).push t []).Leads (s.setWorld w') := by
    rintro _ rfl
    rw [push_nil]
    exact .refl
  rw [World.collect, World.collectSlow] at returned
  rw [World.startCollect]
  split at returned
  · rename_i needed
    rw [if_pos needed]
    cases current : (w.withCurrent (.thread t)).2 with
    | none =>
        simp only [current, Except.ok.injEq] at returned
        exact nothing returned
    | some id =>
        simp only [current] at returned
        split at returned
        · rename_i unwinding
          simp only [unwinding, if_true]
          exact nothing (Except.ok.inj returned)
        · rename_i calm
          split at returned
          · rename_i still
            simp only [calm, still, if_true]
            exact plain.collectForceOf returned
          · rename_i settled
            simp only [calm, settled]
            exact nothing (Except.ok.inj returned)
  · rename_i unneeded
    simp only [if_neg unneeded]
    exact nothing (Except.ok.inj returned)

theorem Plain.collectForce (plain : s.Plain) (returned : w.collectForce (.thread t) = .ok w') :
    ((s.setWorld (w.startCollectForce (.thread t)).1).push t (w.startCollectForce (.thread t)).2).Leads
      (s.setWorld w') := by
  rw [World.collectForce] at returned
  rw [World.startCollectForce]
  cases current : (w.withCurrent (.thread t)).2 with
  | none =>
      simp only [current, Except.ok.injEq] at returned
      simp only [push_nil, returned]
      exact .refl
  | some id =>
      simp only [current] at returned
      exact plain.collectForceOf returned

/-- An implicit collection, up to the operation after it. -/
theorem Plain.collectThen (plain : s.Plain) (next : Operation Oid)
    (returned : s.world.collect (.thread t) (s.panicking t) = .ok w') :
    (s.collectThen t next).Leads ((s.setWorld w').push t [.resume next]) := by
  have waiting : (s.push t [.resume next]).Plain := plain
  have leads := waiting.collect returned
  simp only [Process.collectThen, ← push_push]
  exact leads

theorem Plain.decrementSharedDoQueue (plain : s.Plain) {ob : Object pw (Holder Tid Oid)}
    (returned : s.world.decrementSharedDoQueue o ob = .ok w') :
    ∃ s', s.decrementSharedDoQueue t o ob = .ok s' ∧ s'.Leads (s.setWorld w') := by
  rw [World.decrementSharedDoQueue] at returned
  rw [Process.decrementSharedDoQueue]
  cases owned : ob.header.biased.ownerId with
  | none =>
      rw [owned] at returned
      cases returned
  | some owner =>
      simp only [owned] at returned ⊢
      cases listed : s.world.getById owner with
      | none =>
          rw [listed] at returned
          cases returned
      | some info =>
          simp only [listed, World.queueObject] at returned ⊢
          cases queued : info.queuedObjects with
          | some queue =>
              simp only [queued, Except.ok.injEq] at returned
              refine ⟨_, rfl, ?_⟩
              rw [← returned]
              exact .refl
          | none =>
              simp only [queued] at returned
              split at returned
              · cases returned
              · rename_i dead
                have guarded : ((s.setObject o ob).push t [.noUnwind]).Plain := plain
                obtain ⟨s₁, merged, leads⟩ := guarded.explicitMerge (t := t) returned
                refine ⟨s₁, (if_neg dead).trans merged, leads.trans ?_⟩
                have top : (((s.setObject o ob).push t [.noUnwind]).setWorld w').stack t =
                    .noUnwind :: s.stack t := stack_push_self
                refine .of_step top rfl ?_
                simp only [step, top]
                exact congrArg Except.ok setWorld_push_setStack

theorem Plain.release (plain : s.Plain) (returned : s.world.dropNoCollect (.thread t) o = .ok w') :
    ∃ s', s.release t o = .ok s' ∧ s'.Leads (s.setWorld w') := by
  rw [World.dropNoCollect] at returned
  rw [Process.release]
  cases pointed : s.world.deref o with
  | error fault =>
      rw [pointed] at returned
      cases returned
  | ok ob =>
      obtain ⟨found, allocated⟩ := World.deref_eq_ok.mp pointed
      rw [pointed] at returned
      simp only [bind, Except.bind, Object.decrementStrong_eq] at returned ⊢
      cases dropped : ob.releaseStrong (.thread t) (s.world.shortId (.thread t)) with
      | error fault =>
          rw [dropped] at returned
          cases returned
      | ok result =>
          obtain ⟨ob', released⟩ := result
          have memory := Object.releaseStrong_sameMemory.of_ok dropped
          rw [dropped] at returned
          cases released with
          | kept =>
              have same : s.world.setObject o ob' = w' := Except.ok.inj returned
              exact ⟨s.setObject o ob', rfl, same ▸ .refl⟩
          | dead =>
              have same : s.world.setObject o ob'.dealloc = w' := Except.ok.inj returned
              exact ⟨s.destroy t o ob', rfl, same ▸ plain.destroy (memory.freed.trans allocated)⟩
          | won => exact plain.decrementSharedDoQueue returned

section Fresh

omit [DecidableEq Tid] in
/-- The world has no object at this address. -/
theorem fresh_explicitMerge (free : w.objects o = none) (o' : Oid) :
    Yields (fun _ => True) (fun w' => w'.objects o = none) (w.explicitMerge id o') := by
  rw [World.explicitMerge, World.onObject]
  cases target : w.deref o' with
  | error fault => trivial
  | ok ob =>
      have found := (World.deref_eq_ok.mp target).1
      have other : o ≠ o' := by
        rintro rfl
        rw [free] at found
        cases found
      simp only [bind, Except.bind]
      cases ob.explicitMerge id with
      | error fault => trivial
      | ok ob' => exact (World.objects_setObject_of_ne other).trans free

omit [DecidableEq Tid] in
theorem fresh_doProcess (free : w.objects o = none) (queue : List Oid) :
    Yields (fun _ => True) (fun w' => w'.objects o = none) (World.doProcess id queue w) := by
  induction queue generalizing w with
  | nil => exact free
  | cons o' queue ih => exact (fresh_explicitMerge free o').bind fun w' => ih

omit [DecidableEq Tid] in
theorem fresh_collectForceOf (free : w.objects o = none) :
    Yields (fun _ => True) (fun w' => w'.objects o = none) (w.collectForceOf id) := by
  rw [World.collectForceOf]
  split
  · exact free
  · split
    · split
      · exact free
      · exact (fresh_doProcess free _).bind fun w' free' => free'
    · exact free

/-- A collection makes no object. -/
theorem fresh_collect (free : w.objects o = none) (panicking : Bool) :
    Yields (fun _ => True) (fun w' => w'.objects o = none) (w.collect (.thread t) panicking) := by
  have started : (w.withCurrent (.thread t)).1.objects o = none := by
    rw [World.objects_withCurrent, free]
  rw [World.collect, World.collectSlow]
  split
  · split
    · exact started
    · split
      · exact started
      · split
        · exact fresh_collectForceOf started
        · exact started
  · exact free

end Fresh

end Process

/-- The threads whose code makes the call. -/
def Call.callers {Tid Oid : Type} : Call Tid Oid → List Tid
  | .new t _ _ | .clone t _ _ | .cloneNoCollect t _ | .cloneShared t _ | .drop t _ _
  | .dropNoCollect t _ | .upgrade t _ | .downgrade t _ | .cloneWeak t _ | .dropWeak t _
  | .collect t _ | .collectForce t | .threadDeath t => [t]
  | .send source target _ | .sendWeak source target _ => [source, target]

/-- No handle goes into a value. -/
def Call.ByThreads {Tid Oid : Type} (c : Call (Holder Tid Oid) Oid) : Prop :=
  ∀ holder ∈ c.callers, ∃ t, holder = .thread t

instance {Tid Oid : Type} [DecidableEq Tid] [DecidableEq Oid] [Fintype Tid]
    (c : Call (Holder Tid Oid) Oid) : Decidable c.ByThreads :=
  inferInstanceAs (Decidable (∀ holder ∈ c.callers, ∃ t, holder = .thread t))

/-- Whether the thread is panicking during the call. -/
def Call.panicking {Tid Oid : Type} : Call Tid Oid → Bool
  | .new _ _ panicking | .clone _ _ panicking | .drop _ _ panicking | .collect _ panicking => panicking
  | _ => false

namespace Process

variable {pw : PointerWidth} {Tid Oid : Type} [DecidableEq Oid]
  {s s' : Process pw Tid Oid} {t : Tid} {o : Oid} {w w' : World pw (Holder Tid Oid) Oid}

theorem has_of_holdsStrong (free : ∀ handle, s.reserved t handle = 0)
    (holds : s.world.holdsStrong (.thread t) o) : s.has t (.brc o) := by
  obtain ⟨ob, found, positive⟩ := holds
  rw [has_brc found, free]
  omega

theorem has_of_holdsWeak (free : ∀ handle, s.reserved t handle = 0)
    (holds : s.world.holdsWeak (.thread t) o) : s.has t (.weak o) := by
  obtain ⟨ob, found, positive⟩ := holds
  rw [has_weak found, free]
  omega

variable [DecidableEq Tid]

theorem Leads.of_resume [Fintype Oid] [Fintype Tid] {next : Operation Oid}
    (goes : (Frame.resume next).canStep = true)
    (returned : s.operate t next = .ok s') : (s.push t [.resume next]).Leads s' := by
  have top : (s.push t [.resume next]).stack t = .resume next :: s.stack t := stack_push_self
  refine .of_step top goes ?_
  simp only [step, top, setStack_push, returned]

theorem bind_eq_ok {α β : Type} {x : Except Fault α} {f : α → Except Fault β} {b : β}
    (returned : x >>= f = .ok b) : ∃ a, x = .ok a ∧ f a = .ok b := by
  cases x with
  | error fault => cases returned
  | ok a => exact ⟨a, rfl, returned⟩

theorem handOver_of_send {source target : Holder Tid Oid}
    (returned : (w.onObject o fun ob =>
      .ok { ob with strong := raise (lower ob.strong source) target }) = .ok w') :
    w.handOver source target (.brc o) = w' := by
  obtain ⟨ob, pointed, stored⟩ := bind_eq_ok returned
  simp only [World.handOver, (World.deref_eq_ok.mp pointed).1]
  exact Except.ok.inj stored

theorem handOver_of_sendWeak {source target : Holder Tid Oid}
    (returned : (w.onObject o fun ob =>
      .ok { ob with weak := raise (lower ob.weak source) target }) = .ok w') :
    w.handOver source target (.weak o) = w' := by
  obtain ⟨ob, pointed, stored⟩ := bind_eq_ok returned
  simp only [World.handOver, (World.deref_eq_ok.mp pointed).1]
  exact Except.ok.inj stored

variable [Fintype Tid] [Fintype Oid]

/-- A call by code of a thread that no other call of the thread is in the way of. -/
theorem Plain.call (plain : s.Plain) (code : s.runsCode t)
    (free : ∀ handle, s.reserved t handle = 0) {c : Call (Holder Tid Oid) Oid}
    (threads : c.ByThreads) (caller : c.callers.head? = some (.thread t))
    (flag : s.panicking t = c.panicking) (alive : c ≠ .threadDeath (.thread t))
    (enabled : s.world.enabled c) (returned : s.world.call c = .ok w') :
    s.Leads (s.setWorld w') := by
  cases c with
  | new holder o panicking =>
      obtain rfl : holder = .thread t := Option.some.inj caller
      obtain rfl : s.panicking t = panicking := flag
      obtain ⟨w₁, collected, stored⟩ := bind_eq_ok returned
      have vacant := (fresh_collect enabled _).of_ok collected
      refine (Leads.single (a := .new t) code rfl).trans ((plain.collectThen .alloc collected).trans ?_)
      have top : ((s.setWorld w₁).push t [.resume .alloc]).stack t = .resume .alloc :: s.stack t :=
        stack_push_self
      refine .single (a := .allocate t o) ⟨by rw [top]; rfl, vacant⟩ ?_
      simp only [act, top, List.tail_cons]
      rw [← Except.ok.inj stored]
      exact congrArg Except.ok setWorld_push_setStack
  | clone holder o panicking =>
      obtain rfl : holder = .thread t := Option.some.inj caller
      obtain rfl : s.panicking t = panicking := flag
      obtain ⟨w₁, collected, cloned⟩ := bind_eq_ok returned
      refine (Leads.single (a := .clone t o) ⟨code, has_of_holdsStrong free enabled⟩ rfl).trans
        ((plain.collectThen (.clone o) collected).trans (.of_resume rfl ?_))
      exact onObject_of_world (s := s.setWorld w₁) cloned
  | cloneNoCollect holder o =>
      obtain rfl : holder = .thread t := Option.some.inj caller
      exact .single (a := .cloneNoCollect t o) ⟨code, has_of_holdsStrong free enabled⟩
        (onObject_of_world returned)
  | cloneShared holder o =>
      obtain rfl : holder = .thread t := Option.some.inj caller
      exact .single (a := .cloneShared t o) ⟨code, has_of_holdsStrong free enabled⟩
        (onObject_of_world returned)
  | drop holder o panicking =>
      obtain rfl : holder = .thread t := Option.some.inj caller
      obtain rfl : s.panicking t = panicking := flag
      obtain ⟨w₁, collected, dropped⟩ := bind_eq_ok returned
      obtain ⟨s₁, released, leads⟩ := Plain.release (s := s.setWorld w₁) (t := t) plain dropped
      have top : (s.push t [.drop (.brc o)]).stack t = .drop (.brc o) :: s.stack t := stack_push_self
      have begun : (s.push t [.drop (.brc o)]).step t = .ok (s.collectThen t (.release o)) := by
        simp only [step, top, setStack_push]
      refine (Leads.single (a := .drop t (.brc o)) ⟨code, has_of_holdsStrong free enabled⟩ rfl).trans
        ((Leads.of_step top rfl begun).trans ((plain.collectThen (.release o) collected).trans ?_))
      have operated : (s.setWorld w₁).operate t (.release o) = .ok s₁ := released
      exact (Leads.of_resume rfl operated).trans leads
  | dropNoCollect holder o =>
      obtain rfl : holder = .thread t := Option.some.inj caller
      obtain ⟨s₁, released, leads⟩ := plain.release (t := t) returned
      have operated : s.operate t (.release o) = .ok s₁ := released
      exact (Leads.single (a := .dropNoCollect t o) ⟨code, has_of_holdsStrong free enabled⟩ rfl).trans
        ((Leads.of_resume rfl operated).trans leads)
  | upgrade holder o =>
      obtain rfl : holder = .thread t := Option.some.inj caller
      exact .single (a := .upgrade t o) ⟨code, has_of_holdsWeak free enabled⟩
        (onObject_of_world returned)
  | downgrade holder o =>
      obtain rfl : holder = .thread t := Option.some.inj caller
      exact .single (a := .downgrade t o) ⟨code, has_of_holdsStrong free enabled⟩
        (onObject_of_world returned)
  | cloneWeak holder o =>
      obtain rfl : holder = .thread t := Option.some.inj caller
      exact .single (a := .cloneWeak t o) ⟨code, has_of_holdsWeak free enabled⟩
        (onObject_of_world returned)
  | dropWeak holder o =>
      obtain rfl : holder = .thread t := Option.some.inj caller
      have top : (s.push t [.drop (.weak o)]).stack t = .drop (.weak o) :: s.stack t := stack_push_self
      refine (Leads.single (a := .drop t (.weak o)) ⟨code, has_of_holdsWeak free enabled⟩ rfl).trans
        (.of_step top rfl ?_)
      simp only [step, top, setStack_push]
      exact onObject_of_world returned
  | collect holder panicking =>
      obtain rfl : holder = .thread t := Option.some.inj caller
      obtain rfl : s.panicking t = panicking := flag
      exact (Leads.single (a := .collect t) code rfl).trans (plain.collect returned)
  | collectForce holder =>
      obtain rfl : holder = .thread t := Option.some.inj caller
      exact (Leads.single (a := .collectForce t) code rfl).trans (plain.collectForce returned)
  | threadDeath holder =>
      obtain rfl : holder = .thread t := Option.some.inj caller
      exact absurd rfl alive
  | send source target o =>
      obtain rfl : source = .thread t := Option.some.inj caller
      obtain ⟨t', rfl⟩ := threads target (by simp [Call.callers])
      rw [← handOver_of_send returned]
      exact .single (a := .send t t' (.brc o)) ⟨code, has_of_holdsStrong free enabled⟩ rfl
  | sendWeak source target o =>
      obtain rfl : source = .thread t := Option.some.inj caller
      obtain ⟨t', rfl⟩ := threads target (by simp [Call.callers])
      rw [← handOver_of_sendWeak returned]
      exact .single (a := .send t t' (.weak o)) ⟨code, has_of_holdsWeak free enabled⟩ rfl

/-- No call is running, no thread is panicking and no value holds a handle. -/
structure AtRest (s : Process pw Tid Oid) (w : World pw (Holder Tid Oid) Oid) : Prop where
  world : s.world = w
  plain : s.Plain
  idle : ∀ t, s.stack t = []
  calm : ∀ t, s.panicking t = false

omit [DecidableEq Oid] [DecidableEq Tid] [Fintype Tid] [Fintype Oid] in
theorem AtRest.setWorld (rest : s.AtRest w) : (s.setWorld w').AtRest w' :=
  ⟨rfl, rest.plain, rest.idle, rest.calm⟩

theorem AtRest.exit (rest : s.AtRest w) (returned : w.threadDeath (.thread t) = .ok w') :
    ∃ s', s.Leads s' ∧ s'.AtRest w' := by
  obtain ⟨rfl, plain, idle, calm⟩ := rest
  rw [World.threadDeath] at returned
  have begun : s.Leads (s.exit t) := .single (a := .exit t) ⟨idle t, calm t⟩ rfl
  rw [Process.exit] at begun
  cases owned : s.world.shortId (.thread t) with
  | none =>
      simp only [owned, Except.ok.injEq] at returned
      exact ⟨s, .refl, returned, plain, idle, calm⟩
  | some id =>
      simp only [owned] at returned begun
      cases listed : s.world.getById id with
      | none =>
          simp only [listed, Except.ok.injEq] at returned begun
          exact ⟨_, begun, returned, plain, idle, calm⟩
      | some info =>
          simp only [listed] at returned begun
          obtain ⟨w₁, processed, settled⟩ := bind_eq_ok returned
          refine ⟨_, begun.trans (Plain.bury plain orphaned_setOrphaned_self stack_push_self processed),
            Except.ok.inj settled, plain, ?_, calm⟩
          intro t'
          by_cases same : t' = t
          · rw [same, stack_setStack_self]
            exact idle t
          · rw [stack_setStack_of_ne same]
            exact (stack_push_of_ne same).trans (idle t')

/-- The code of an idle thread panics, and drops its variables next. -/
def unwinding (s : Process pw Tid Oid) (t : Tid) : Process pw Tid Oid :=
  { s.setStack t [.caught] with panicking := Function.update s.panicking t true }

/-- A call of an idle thread, inside a panic if the call says so. -/
theorem AtRest.call (rest : s.AtRest w) {c : Call (Holder Tid Oid) Oid} (threads : c.ByThreads)
    (enabled : w.enabled c) (returned : w.call c = .ok w') : ∃ s', s.Leads s' ∧ s'.AtRest w' := by
  obtain ⟨holder, caller⟩ : ∃ holder, c.callers.head? = some holder := by cases c <;> exact ⟨_, rfl⟩
  obtain ⟨t, rfl⟩ := threads holder (List.mem_of_head? caller)
  by_cases dying : c = .threadDeath (.thread t)
  · subst dying
    exact rest.exit returned
  have world := rest.world
  subst world
  cases flag : c.panicking with
  | false =>
      refine ⟨s.setWorld w', ?_, rest.setWorld⟩
      refine rest.plain.call ?_ ?_ threads caller ((rest.calm t).trans flag.symm) dying enabled returned
      · rw [runsCode, rest.idle t]
        rfl
      · intro handle
        rw [reserved, rest.idle t, List.countP_nil]
  | true =>
      have top : (s.unwinding t).stack t = [.caught] := stack_setStack_self
      have panicking : (s.unwinding t).panicking t = true := Function.update_self ..
      have begun : s.Leads (s.unwinding t) := by
        refine .single (a := .panic t) ⟨by rw [runsCode, rest.idle t]; rfl, rest.calm t⟩ ?_
        simp only [act, rest.idle t, Frame.unwind, unwinding]
      have called : (s.unwinding t).Leads ((s.unwinding t).setWorld w') := by
        refine Plain.call (s := s.unwinding t) rest.plain ?_ ?_ threads caller
          (panicking.trans flag.symm) dying enabled returned
        · rw [runsCode, top]
          rfl
        · intro handle
          rw [reserved, top]
          simp [Frame.owes]
      have same : s.setWorld w' = { ((s.unwinding t).setWorld w').setStack t [] with
          panicking := Function.update (s.unwinding t).panicking t false } := by
        have stack : Function.update (Function.update s.stack t [.caught]) t [] = s.stack := by
          rw [Function.update_idem, ← rest.idle t, Function.update_eq_self]
        have calm : Function.update (Function.update s.panicking t true) t false = s.panicking := by
          rw [Function.update_idem, ← rest.calm t, Function.update_eq_self]
        simp only [unwinding, Process.setWorld, setStack, stack, calm]
      have caught : ((s.unwinding t).setWorld w').Leads (s.setWorld w') := by
        have top' : ((s.unwinding t).setWorld w').stack t = [.caught] := top
        refine .of_step top' rfl ?_
        rw [same]
        simp only [step, top']
        rfl
      exact ⟨s.setWorld w', begun.trans (called.trans caught), rest.setWorld⟩

omit [DecidableEq Tid] [DecidableEq Oid] [Fintype Tid] [Fintype Oid] in
theorem AtRest.initial : (Process.initial : Process pw Tid Oid).AtRest .initial :=
  ⟨rfl, fun _ => rfl, fun _ => rfl, fun _ => rfl⟩

variable (pw Tid Oid) in
/-- The processes again, with a whole call as one step: a block of their own steps from rest to
    rest that does to the world what the call does. -/
def blocks : Transition.System (Process pw Tid Oid) (Call (Holder Tid Oid) Oid) where
  start s := s = .initial
  step s c s' := s.Leads s' ∧ s.AtRest s.world ∧ s'.AtRest s'.world ∧
    (calls pw (Holder Tid Oid) Oid).step s.world c s'.world

/-- A run of whole calls is one of single steps, a block for each call in its order, while no
    value holds a handle. -/
theorem whole_calls_refined {cs : List (Call (Holder Tid Oid) Oid)}
    (run : Run ((calls pw (Holder Tid Oid) Oid).restrict fun _ c => c.ByThreads) .initial cs w) :
    ∃ s, Run (blocks pw Tid Oid) .initial cs s ∧ (processes pw Tid Oid).Reachable s ∧ s.AtRest w := by
  have simulated : ∃ s, Run (blocks pw Tid Oid) .initial (cs.filterMap some) s ∧
      (processes pw Tid Oid).Reachable s ∧ s.AtRest w := by
    refine run.simulation (R := fun _ w s => (processes pw Tid Oid).Reachable s ∧ s.AtRest w)
      ⟨.start rfl, .initial⟩ ?_
    rintro _ w c w' s ⟨reached, rest⟩ ⟨threads, taken⟩
    obtain ⟨enabled, returned⟩ := calls_step.mp taken
    obtain ⟨s', leads, rest'⟩ := rest.call threads enabled returned
    obtain rfl := rest.world
    obtain rfl := rest'.world
    obtain ⟨block, steps⟩ := leads
    exact ⟨s', ⟨⟨block, steps⟩, rest, rest', taken⟩, reached.run steps, rest'⟩
  rwa [List.filterMap_some] at simulated

/-- A value destroyed by a collection that runs after calls inside a panic. -/
theorem whole_calls_refined_at_collection :
    ∃ (cs : List (Call (Holder (Fin 2) (Fin 1)) (Fin 1))) (s : Process .w64 (Fin 2) (Fin 1))
      (ob : Object .w64 (Holder (Fin 2) (Fin 1))),
      Run (blocks .w64 (Fin 2) (Fin 1)) .initial cs s ∧
        cs.getLast? = some (.collectForce (.thread 0)) ∧
        s.world.objects 0 = some ob ∧ ob.destroyed = 1 := by
  obtain ⟨w, run, ob, found, once⟩ : ∃ w,
      Run ((calls .w64 (Holder (Fin 2) (Fin 1)) (Fin 1)).restrict fun _ c => c.ByThreads) .initial
        [.new (.thread 0) 0 false, .clone (.thread 0) 0 true, .send (.thread 0) (.thread 1) 0,
          .drop (.thread 0) 0 true, .drop (.thread 1) 0 false, .collectForce (.thread 0)] w ∧
        ∃ ob ∈ w.objects 0, ob.destroyed = 1 :=
    Run.exists_of_replay _ (by decide +kernel)
  obtain ⟨s, ran, _, rest⟩ := whole_calls_refined run
  exact ⟨_, s, ob, ran, rfl, rest.world ▸ found, once⟩

end Process

end BiasedRc
