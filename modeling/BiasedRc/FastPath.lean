import BiasedRc.Lib.Outcome
import BiasedRc.World

/-! # The fast path of a collection is exact

`collect` first reads one flag, through a pointer that leads to a dummy while the
thread has no state, and `collect_slow` reads it again once there is one. Only
then does `collect_force` look at the queue. In every state that calls can reach
a flag that says there is nothing to do has an empty queue behind it, so all
three do the same, and a second collection does nothing.
-/

namespace BiasedRc

open Tally Outcome Transition.System

variable {pw : PointerWidth} {Tid Oid : Type}

/-- The flag is right about the queue: there is one until the thread dies, and nothing is in
    it while the flag says so. -/
structure SharedThreadInfo.Flagged (info : SharedThreadInfo Oid) : Prop where
  isSome : info.queuedObjects.isSome = info.stateFlag.isLive
  empty : info.stateFlag = .live → info.queuedObjects = some []

theorem SharedThreadInfo.flagged_live : Flagged (⟨.live, some []⟩ : SharedThreadInfo Oid) :=
  ⟨rfl, fun _ => rfl⟩

namespace World

/-- The flag of each registered thread is right. -/
def Flagged (w : World pw Tid Oid) : Prop := ∀ id info, w.getById id = some info → info.Flagged

variable {w w' : World pw Tid Oid} {t : Tid} {o : Oid} {id : ShortThreadId}
  {info : SharedThreadInfo Oid}

namespace Flagged

theorem congr (flagged : w.Flagged) (threads : w'.threads = w.threads) : w'.Flagged := by
  intro id info found
  rw [getById, threads] at found
  exact flagged id info found

theorem setInfo (flagged : w.Flagged) (exact' : info.Flagged) : (w.setInfo id info).Flagged := by
  intro id' info' found
  by_cases same : id' = id
  · subst same
    rw [getById, World.setInfo] at found
    by_cases inside : id'.index < w.threads.length
    · rw [List.getElem?_set_self inside, Option.join_some, Option.some.injEq] at found
      exact found ▸ exact'
    · rw [List.getElem?_eq_none (by rw [List.length_set]; omega)] at found
      cases found
  · rw [getById_setInfo_of_ne same] at found
    exact flagged id' info' found

theorem initThread [DecidableEq Tid] (flagged : w.Flagged) : (w.initThread t).1.Flagged := by
  rw [World.initThread]
  split
  · exact flagged
  · split
    · intro id info found
      rw [getById_push_none] at found
      exact flagged id info found
    · rename_i id fits
      have fresh := ShortThreadId.index_ofIndex fits
      intro id' info found
      rw [getById_setFast] at found
      by_cases same : id' = id
      · subst same
        rw [getById_push_self fresh, Option.some.injEq] at found
        exact found ▸ SharedThreadInfo.flagged_live
      · rw [getById_push_of_ne fresh same] at found
        exact flagged id' info found

theorem withCurrent [DecidableEq Tid] (flagged : w.Flagged) : (w.withCurrent t).1.Flagged := by
  rw [World.withCurrent]
  split
  · exact flagged.initThread
  · exact flagged
  · exact flagged

end Flagged

variable [DecidableEq Oid]

theorem onObject_threads {op : Object pw Tid → Except Fault (Object pw Tid)} :
    Yields (fun _ => True) (fun w' => w'.threads = w.threads ∧ w'.fast = w.fast) (w.onObject o op) := by
  rw [onObject]
  cases w.deref o with
  | error fault => trivial
  | ok ob =>
      cases changed : op ob with
      | error fault => simp [bind, Except.bind, changed]
      | ok ob' => simp [bind, Except.bind, changed, setObject, pure, Except.pure]

variable [Fintype Tid]

theorem doProcess_threads (queue : List Oid) :
    Yields (fun _ => True) (fun w' => w'.threads = w.threads ∧ w'.fast = w.fast)
      (doProcess id queue w) := by
  induction queue generalizing w with
  | nil => exact ⟨rfl, rfl⟩
  | cons o rest ih =>
      rw [doProcess]
      refine onObject_threads.bind ?_
      rintro w' ⟨threads, fast⟩
      exact ih.mono fun w'' ⟨threads', fast'⟩ => ⟨threads'.trans threads, fast'.trans fast⟩

namespace Flagged

omit [Fintype Tid] in
theorem onObject (flagged : w.Flagged) {op : Object pw Tid → Except Fault (Object pw Tid)} :
    Yields (fun _ => True) Flagged (w.onObject o op) :=
  onObject_threads.mono fun _ same => flagged.congr same.1

theorem collectForceOf (flagged : w.Flagged) :
    Yields (fun _ => True) Flagged (w.collectForceOf id) := by
  rw [World.collectForceOf]
  split
  · exact flagged
  · split
    · split
      · exact flagged
      · refine (doProcess_threads _).bind ?_
        rintro w' ⟨threads, _⟩
        exact (flagged.congr threads).setInfo SharedThreadInfo.flagged_live
    · exact flagged

variable [DecidableEq Tid]

theorem collectForce (flagged : w.Flagged) : Yields (fun _ => True) Flagged (w.collectForce t) := by
  rw [World.collectForce]
  split
  · exact flagged.withCurrent
  · exact flagged.withCurrent.collectForceOf

theorem collect (flagged : w.Flagged) {panicking : Bool} :
    Yields (fun _ => True) Flagged (w.collect t panicking) := by
  rw [World.collect, World.collectSlow]
  split
  · split
    · exact flagged.withCurrent
    · split
      · exact flagged.withCurrent
      · split
        · exact flagged.withCurrent.collectForceOf
        · exact flagged.withCurrent
  · exact flagged

omit [DecidableEq Tid] in
theorem queueObject (flagged : w.Flagged) (exact' : info.Flagged) {ob : Object pw Tid} :
    Yields (fun _ => True) Flagged (w.queueObject id info o ob) := by
  rw [World.queueObject]
  split
  · rename_i queue listed
    apply setInfo (flagged.congr rfl)
    have known := exact'.isSome
    rw [listed] at known
    constructor
    · dsimp only
      split
      · rfl
      · exact known
    · dsimp only
      split
      · rintro ⟨⟩
      · exact fun live => absurd live ‹_›
  · split
    · trivial
    · exact Flagged.onObject (w := w.setObject o ob) (flagged.congr rfl)

theorem dropNoCollect (flagged : w.Flagged) :
    Yields (fun _ => True) Flagged (w.dropNoCollect t o) := by
  rw [World.dropNoCollect]
  cases w.deref o with
  | error fault => trivial
  | ok ob =>
      simp only [bind, Except.bind]
      cases ob.decrementStrong t (w.shortId t) with
      | error fault => trivial
      | ok result =>
          obtain ⟨ob', won⟩ := result
          dsimp only
          split
          · rw [decrementSharedDoQueue]
            split
            · trivial
            · split
              · trivial
              · rename_i info found
                exact flagged.queueObject (flagged _ info found)
          · exact flagged.congr rfl

theorem threadDeath (flagged : w.Flagged) : Yields (fun _ => True) Flagged (w.threadDeath t) := by
  rw [World.threadDeath]
  split
  · exact flagged
  · split
    · exact flagged.congr rfl
    · rename_i id _ _ _ _
      have dying : ((w.setFast t ⟨.deadOrDying, none⟩).setInfo id ⟨.dying, none⟩).Flagged :=
        setInfo (flagged.congr rfl) ⟨rfl, nofun⟩
      refine (doProcess_threads _).bind ?_
      rintro w' ⟨threads, _⟩
      exact (dying.congr threads).setInfo ⟨rfl, nofun⟩

theorem call (flagged : w.Flagged) (c : Call Tid Oid) :
    Yields (fun _ => True) Flagged (w.call c) := by
  cases c with
  | new t o panicking => exact flagged.collect.bind fun _ kept => kept.withCurrent.congr rfl
  | clone t o panicking => exact flagged.collect.bind fun _ kept => kept.onObject
  | drop t o panicking => exact flagged.collect.bind fun _ kept => kept.dropNoCollect
  | dropNoCollect t o => exact flagged.dropNoCollect
  | collect t panicking => exact flagged.collect
  | collectForce t => exact flagged.collectForce
  | threadDeath t => exact flagged.threadDeath
  | cloneNoCollect t o | cloneShared t o | upgrade t o | downgrade t o | cloneWeak t o
  | dropWeak t o | send t t' o | sendWeak t t' o => exact flagged.onObject

end Flagged

variable [DecidableEq Tid]

omit [DecidableEq Oid] [Fintype Tid] in
/-- Initializing a thread fails for good, or gives it an id. -/
theorem initThread_cases (w : World pw Tid Oid) (t : Tid) :
    (∃ w', w.initThread t = (w', none) ∧ w'.shortThreadIdsExhausted = true ∧ w'.fast = w.fast) ∨
      ∃ id, ∃ w' : World pw Tid Oid,
        w.initThread t = (w'.setFast t ⟨.active, some id⟩, some id) := by
  rw [initThread]
  split
  · rename_i exhausted
    exact .inl ⟨w, rfl, exhausted, rfl⟩
  · split
    · exact .inl ⟨_, rfl, rfl, rfl⟩
    · rename_i id _
      exact .inr ⟨id, _, rfl⟩

omit [DecidableEq Oid] [Fintype Tid] in
/-- After an access to the thread state another one finds the same. -/
theorem withCurrent_settled (w : World pw Tid Oid) (t : Tid) :
    (w.withCurrent t).1.withCurrent t = w.withCurrent t ∧
      (w.withCurrent t).1.shortId t = (w.withCurrent t).2 := by
  cases status : (w.fast t).status with
  | uninit =>
      have first : w.withCurrent t = w.initThread t := by rw [withCurrent, status]
      rcases initThread_cases w t with ⟨w', failed, exhausted, fast⟩ | ⟨id, w', active⟩
      · have status' : (w'.fast t).status = .uninit := by rw [fast, status]
        have again : w'.withCurrent t = (w', none) := by
          rw [withCurrent, status']
          exact if_pos exhausted
        rw [first, failed]
        exact ⟨again, by simp only [shortId, LocalThreadStateFast.existingShortId, status']⟩
      · rw [first, active]
        simp [withCurrent, setFast, shortId, LocalThreadStateFast.existingShortId]
  | active => simp only [withCurrent, status, and_self]
  | deadOrDying =>
      simp only [withCurrent, status, shortId, LocalThreadStateFast.existingShortId, and_self]

omit [DecidableEq Oid] [Fintype Tid] in
/-- A thread that has an id finds its state as it is. -/
theorem withCurrent_of_shortId (mine : w.shortId t = some id) : w.withCurrent t = (w, some id) := by
  rw [withCurrent]
  cases status : (w.fast t).status with
  | active => simp only [mine]
  | uninit | deadOrDying =>
      simp [shortId, LocalThreadStateFast.existingShortId, status] at mine

namespace Flagged

omit [DecidableEq Tid] in
/-- With the flag at rest there is nothing to collect. -/
theorem collectForceOf_of_live (flagged : w.Flagged) (found : w.getById id = some info)
    (live : info.stateFlag = .live) : w.collectForceOf id = .ok w := by
  have empty := (flagged id info found).empty live
  have same : w.setInfo id ⟨.live, some []⟩ = w := by
    rw [← live]
    exact setInfo_listed found empty
  simp only [World.collectForceOf, found, live, ThreadStateFlag.isLive, if_true, empty, doProcess,
    bind, Except.bind, pure, Except.pure, same]

omit [DecidableEq Tid] in
/-- A flag that is at rest, read by the thread it belongs to. -/
theorem collectForceOf_of_unneeded (flagged : w.Flagged) (mine : w.shortId t = some id)
    (unneeded : w.currentlyNeedsCollect t = false) : w.collectForceOf id = .ok w := by
  rw [currentlyNeedsCollect, mine, Option.bind_some] at unneeded
  cases found : w.getById id with
  | none => simp [found] at unneeded
  | some info =>
      simp only [found, bne_eq_false_iff_eq] at unneeded
      exact flagged.collectForceOf_of_live found unneeded

theorem collect_eq (flagged : w.Flagged) : w.collect t false = w.collectForce t := by
  rw [World.collect]
  split
  · rw [World.collectSlow, World.collectForce]
    have current := (withCurrent_settled w t).2
    split
    · rfl
    · rename_i id taken
      rw [taken] at current
      rw [if_neg Bool.false_ne_true]
      split
      · rfl
      · rename_i unneeded
        rw [Bool.not_eq_true] at unneeded
        exact (flagged.withCurrent.collectForceOf_of_unneeded current unneeded).symm
  · rename_i unneeded
    rw [Bool.not_eq_true] at unneeded
    cases mine : w.shortId t with
    | none => simp [currentlyNeedsCollect, mine] at unneeded
    | some id =>
        rw [World.collectForce, withCurrent_of_shortId mine]
        exact (flagged.collectForceOf_of_unneeded mine unneeded).symm

omit [DecidableEq Tid] in
/-- Once collected, the queue is empty and a second collection finds nothing. -/
theorem collectForceOf_settled (flagged : w.Flagged) (returned : w.collectForceOf id = .ok w') :
    w'.collectForceOf id = .ok w' ∧ w'.queueOf id = [] ∧ w'.fast = w.fast := by
  rw [World.collectForceOf] at returned
  cases found : w.getById id with
  | none =>
      simp only [found, Except.ok.injEq] at returned
      subst returned
      exact ⟨by rw [World.collectForceOf, found], by rw [queueOf, found]; rfl, rfl⟩
  | some info =>
      simp only [found] at returned
      have isSome := (flagged id info found).isSome
      split at returned
      · rename_i live
        rw [live] at isSome
        split at returned
        · rename_i gone
          rw [gone] at isSome
          cases isSome
        · rename_i queue _
          have kept : Yields _ _ (doProcess id queue w) := doProcess_threads queue
          cases processed : doProcess id queue w with
          | error fault => simp [processed, bind, Except.bind] at returned
          | ok w₁ =>
              simp only [processed, bind, Except.bind, pure, Except.pure, Except.ok.injEq]
                at returned
              rw [processed] at kept
              have known : (w₁.getById id).isSome := by
                rw [getById, kept.1, ← getById, found]
                rfl
              subst returned
              refine ⟨?_, queueOf_setInfo_self known, kept.2⟩
              exact Flagged.collectForceOf_of_live
                ((flagged.congr kept.1).setInfo SharedThreadInfo.flagged_live)
                (getById_setInfo_self known) rfl
      · rename_i dead
        cases returned
        rw [Bool.not_eq_true] at dead
        rw [dead, Option.isSome_eq_false_iff, Option.isNone_iff_eq_none] at isSome
        refine ⟨?_, ?_, rfl⟩
        · simp [World.collectForceOf, found, dead]
        · simp [queueOf, found, isSome]

theorem collectForce_settled (flagged : w.Flagged) (returned : w.collectForce t = .ok w') :
    w'.withCurrent t = (w', w'.shortId t) ∧ w'.collectForce t = .ok w' ∧
      ∀ id, w'.shortId t = some id → w'.queueOf id = [] := by
  obtain ⟨again, current⟩ := withCurrent_settled w t
  rw [World.collectForce] at returned
  cases mine : (w.withCurrent t).2 with
  | none =>
      simp only [mine, Except.ok.injEq] at returned
      rw [mine] at current
      rw [returned] at again current
      have settled : w'.withCurrent t = (w', none) := by rw [again, ← returned, ← mine]
      exact ⟨by rw [settled, current], by rw [World.collectForce, settled], by simp [current]⟩
  | some id =>
      simp only [mine] at returned
      rw [mine] at current
      obtain ⟨settled, empty, fast⟩ := flagged.withCurrent.collectForceOf_settled returned
      have same : w'.shortId t = some id := by rw [shortId, fast, ← shortId, current]
      have here := withCurrent_of_shortId same
      refine ⟨by rw [here, same], by rw [World.collectForce, here]; exact settled, ?_⟩
      intro id' mine'
      rw [same, Option.some.injEq] at mine'
      exact mine' ▸ empty

end Flagged

end World

variable [DecidableEq Tid] [DecidableEq Oid]

/-- In every state that calls reach, a collection that reads the flags first does what a forced
    one does. Afterwards the caller's queue is empty, and collecting again changes nothing. -/
theorem collect_exact {w : World pw Tid Oid} [Fintype Tid] (reached : (calls pw Tid Oid).Reachable w)
    (t : Tid) : w.collect t false = w.collectForce t ∧
      ∀ w', w.collect t false = .ok w' →
        (∀ id, w'.shortId t = some id → w'.queueOf id = []) ∧
          w'.collectForce t = .ok w' ∧ ∀ panicking, w'.collect t panicking = .ok w' := by
  have flagged : w.Flagged := by
    refine reached.invariant (P := World.Flagged) ?_ ?_
    · rintro _ rfl id info found
      simp [World.getById, World.initial] at found
    · intro w c w' flagged taken
      exact (flagged.call c).of_ok (calls_step.mp taken).2
  refine ⟨flagged.collect_eq, fun w' returned => ?_⟩
  have flagged' : w'.Flagged := flagged.collect.of_ok returned
  rw [flagged.collect_eq] at returned
  obtain ⟨settled, again, empty⟩ := flagged.collectForce_settled returned
  refine ⟨empty, again, fun panicking => ?_⟩
  cases panicking with
  | false => rw [flagged'.collect_eq, again]
  | true =>
      rw [World.collect, World.collectSlow, settled]
      split <;> (try split) <;> rfl

/-- The object waits in the queue of thread 0, which would destroy it. -/
theorem collect_exact_of_queued : ∃ w : World .w64 (Fin 2) (Fin 1),
    0 ∈ w.queueOf .first ∧ w.collect 0 false = w.collectForce 0 := by
  have start : ((calls .w64 (Fin 2) (Fin 1)).restrict fun _ _ => True).Reachable
      World.initial := .start rfl
  obtain ⟨w, reached, listed⟩ := start.of_replay
    [.new 0 0 false, .clone 0 0 false, .send 0 1 0, .send 0 1 0, .dropNoCollect 1 0,
      .dropNoCollect 1 0]
    (fun w => 0 ∈ w.queueOf .first) (by decide +kernel)
  exact ⟨w, listed, (collect_exact reached.of_restrict 0).1⟩

end BiasedRc
