import BiasedRc.Header
import BiasedRc.Lib.Outcome
import BiasedRc.Lib.Tally
import BiasedRc.Lib.Transition

/-! # Shared decrements that race

One call of `decrement_shared` for each thread, and at most one merge by the owner,
down to the loads and exchanges of `shared_word`. Each successful exchange is kept,
with the word it replaced.
-/

namespace BiasedRc

open Tally Outcome Transition.System

/-- The next access of a call of `decrement_shared`, or what it came to. -/
inductive DecrementPc (pw : PointerWidth) where
  | load
  | exchange (old new : SharedWord pw)
  /-- The call ran `decrement_shared_do_queue`, or did not, and returned `should_drop`. -/
  | finished (queued shouldDrop : Bool)
  deriving DecidableEq

namespace DecrementPc

variable {pw : PointerWidth}

def outstanding : DecrementPc pw → Nat
  | .load | .exchange _ _ => 1
  | .finished _ _ => 0

def queues : DecrementPc pw → Bool
  | .finished queued _ => queued
  | _ => false

def drops : DecrementPc pw → Bool
  | .finished _ shouldDrop => shouldDrop
  | _ => false

end DecrementPc

/-- What the owner does to `shared_word`: `decrement_biased_slow` or `explicit_merge`. -/
inductive OwnerMerge where
  | fetchOr
  | exchange (biased : BiasedCount)
  deriving DecidableEq

/-- What a merge adds to the shared count. -/
def OwnerMerge.added : Option OwnerMerge → Nat
  | some (.exchange biased) => biased.toNat
  | some .fetchOr | none => 0

/-- An exchange that succeeded. -/
structure Exchange (pw : PointerWidth) where
  old : SharedWord pw
  new : SharedWord pw
  deriving DecidableEq

namespace Exchange

variable {pw : PointerWidth}

/-- It took an unmerged count below zero. -/
def Sinks (e : Exchange pw) : Prop := e.old.merged = false ∧ e.new.sharedCount.value < 0

/-- It brought a merged count to zero. -/
def Kills (e : Exchange pw) : Prop := e.new.merged = true ∧ e.new.sharedCount.value = 0

instance (e : Exchange pw) : Decidable e.Kills := inferInstanceAs (Decidable (_ ∧ _))

end Exchange

/-- The word, the calls, and what happened so far. -/
structure Decrements (pw : PointerWidth) (Tid : Type) where
  header : RawBrcHeader pw
  pc : Tid → DecrementPc pw
  merge : Option OwnerMerge
  exchanges : List (Exchange pw)

inductive DecrementAct (Tid : Type) where
  | advance (t : Tid) (spurious : Bool)
  | merge (kind : OwnerMerge)
  deriving DecidableEq

namespace Decrements

variable {pw : PointerWidth} {Tid : Type} [DecidableEq Tid]

def count (s : Decrements pw Tid) : Int := s.header.shared.sharedCount.value

def goto (s : Decrements pw Tid) (t : Tid) (pc : DecrementPc pw) : Decrements pw Tid :=
  { s with pc := Function.update s.pc t pc }

section Goto

variable {s : Decrements pw Tid} {t : Tid} {pc : DecrementPc pw}

@[simp] theorem header_goto : (s.goto t pc).header = s.header := rfl

@[simp] theorem merge_goto : (s.goto t pc).merge = s.merge := rfl

@[simp] theorem exchanges_goto : (s.goto t pc).exchanges = s.exchanges := rfl

@[simp] theorem count_goto : (s.goto t pc).count = s.count := rfl

@[simp] theorem pc_goto_self : (s.goto t pc).pc t = pc := Function.update_self ..

theorem pc_goto_of_ne {t'} (other : t' ≠ t) : (s.goto t pc).pc t' = s.pc t' :=
  Function.update_of_ne other ..

end Goto

/-- The top of the loop, for the word that was read. -/
def tryDecrement (s : Decrements pw Tid) (t : Tid) : Except Fault (Decrements pw Tid) := do
  let new ← s.header.shared.decremented
  return s.goto t (.exchange s.header.shared new)

/-- The exchange of thread `t` succeeds. -/
def exchanged (s : Decrements pw Tid) (t : Tid) (old new : SharedWord pw) : Decrements pw Tid :=
  let stored : Decrements pw Tid :=
    { s with header := s.header.storeShared new, exchanges := s.exchanges ++ [⟨old, new⟩] }
  stored.goto t (if old.wonQueue new then .finished true false else .finished false new.isDead)

/-- The next access of thread `t`. -/
def advance (s : Decrements pw Tid) (t : Tid) (spurious : Bool) :
    Except Fault (Decrements pw Tid) :=
  match s.pc t with
  | .load => s.tryDecrement t
  | .exchange old new =>
      if !spurious && s.header.shared = old then .ok (s.exchanged t old new)
      else s.tryDecrement t
  | .finished _ _ => .ok s

/-- The word that the owner leaves. -/
def merged (s : Decrements pw Tid) : OwnerMerge → Except Fault (RawBrcHeader pw)
  | .fetchOr => .ok s.header.fetchOrMerged
  | .exchange biased => do
      let new ← s.header.shared.mergedWith biased
      return s.header.storeShared new

/-- The decrements that are still to come. -/
def outstanding [Fintype Tid] (s : Decrements pw Tid) : Nat := tally DecrementPc.outstanding s.pc

/-- A merge leaves enough for the decrements that are still to come. -/
def next [Fintype Tid] (s : Decrements pw Tid) : DecrementAct Tid → Option (Decrements pw Tid)
  | .advance t spurious =>
      if (s.pc t).outstanding = 0 then none else (s.advance t spurious).toOption
  | .merge kind =>
      match s.merge, (s.merged kind).toOption with
      | none, some header =>
          if (s.outstanding : Int) ≤ header.shared.sharedCount.value then
            some { s with header, merge := some kind }
          else none
      | _, _ => none

/-- All calls are about to load a word that has not been queued. -/
structure Start [Fintype Tid] (s : Decrements pw Tid) : Prop where
  pc : ∀ t, s.pc t = .load
  merge : s.merge = none
  exchanges : s.exchanges = []
  unqueued : s.header.shared.queued = false
  unmerged : s.header.shared.merged = false → 0 ≤ s.count
  merged : s.header.shared.merged = true → (Fintype.card Tid : Int) ≤ s.count

def system (pw : PointerWidth) (Tid : Type) [DecidableEq Tid] [Fintype Tid] :
    Transition.System (Decrements pw Tid) (DecrementAct Tid) :=
  ofNext Start next

/-- If `t` claims an event only as the first to do so, the event still has one claimant, and
    nobody claims what did not happen. -/
theorem claimed_once {happened happened' : Prop} {claims claims' : Tid → Bool} {t : Tid}
    (others : ∀ t', t' ≠ t → claims' t' = claims t') (silent : claims t = false)
    (now : happened' ↔ happened ∨ claims' t = true) (first : claims' t = true → ¬ happened)
    (once : happened → ∃! t, claims t = true) (sound : ∀ t, claims t = true → happened) :
    (happened' → ∃! t, claims' t = true) ∧ ∀ t, claims' t = true → happened' := by
  constructor
  · intro happens
    rcases now.mp happens with before | own
    · obtain ⟨winner, claimed, only⟩ := once before
      have other : winner ≠ t := by
        rintro rfl
        exact Bool.false_ne_true (silent.symm.trans claimed)
      refine ⟨winner, (others winner other).trans claimed, fun t' claims'' => ?_⟩
      have other' : t' ≠ t := by
        rintro rfl
        exact first claims'' before
      exact only t' ((others t' other').symm.trans claims'')
    · refine ⟨t, own, fun t' claimed => ?_⟩
      by_contra other
      exact first own (sound t' ((others t' other).symm.trans claimed))
  · intro t' claimed
    by_cases same : t' = t
    · exact now.mpr (.inr (same ▸ claimed))
    · exact now.mpr (.inl (sound t' ((others t' same).symm.trans claimed)))

section Exchanged

variable {s : Decrements pw Tid} {t : Tid} {old new : SharedWord pw}

theorem shared_exchanged : (s.exchanged t old new).header.shared = new :=
  RawBrcHeader.shared_storeShared ..

theorem pc_exchanged_of_ne {t'} (other : t' ≠ t) : (s.exchanged t old new).pc t' = s.pc t' :=
  pc_goto_of_ne other

theorem mem_exchanged {e} :
    e ∈ (s.exchanged t old new).exchanges ↔ e ∈ s.exchanges ∨ e = ⟨old, new⟩ :=
  List.mem_append.trans (or_congr_right List.mem_singleton)

theorem exists_mem_exchanged {p : Exchange pw → Prop} :
    (∃ e ∈ (s.exchanged t old new).exchanges, p e) ↔ (∃ e ∈ s.exchanges, p e) ∨ p ⟨old, new⟩ := by
  simp only [mem_exchanged, or_and_right, exists_or, exists_eq_left]

theorem outstanding_of_exchanged : ((s.exchanged t old new).pc t).outstanding = 0 := by
  unfold exchanged
  rw [pc_goto_self]
  split <;> rfl

theorem outstanding_exchanged [Fintype Tid] (pc : s.pc t = .exchange old new) :
    (s.exchanged t old new).outstanding + 1 = s.outstanding := by
  have moved := tally_of_others DecrementPc.outstanding
    fun t' other => (pc_exchanged_of_ne other : (s.exchanged t old new).pc t' = s.pc t')
  rwa [outstanding_of_exchanged, pc] at moved

theorem queues_exchanged : ((s.exchanged t old new).pc t).queues = old.wonQueue new := by
  unfold exchanged
  rw [pc_goto_self]
  cases old.wonQueue new <;> rfl

/-- The winner of the queue leaves a negative count. -/
theorem drops_exchanged (decremented : old.decremented = .ok new) :
    ((s.exchanged t old new).pc t).drops = new.isDead := by
  unfold exchanged
  rw [pc_goto_self]
  cases winner : old.wonQueue new with
  | false => rfl
  | true =>
      have negative := ((SharedWord.wonQueue_eq_true decremented).mp winner).2
      refine (Bool.eq_false_iff.mpr fun isDead => ?_).symm
      have zero := (SharedWord.isDead_eq_true.mp isDead).2
      omega

end Exchanged

variable [Fintype Tid]

/-- What a run from `s₀` to `s` comes to. -/
structure Outcome (s₀ s : Decrements pw Tid) : Prop where
  count : s.outstanding = 0 → s.count = s₀.count - Fintype.card Tid + OwnerMerge.added s.merge
  keepsMerged : ∀ e ∈ s.exchanges, e.new.merged = e.old.merged
  merged : s.header.shared.merged = (s₀.header.shared.merged || s.merge.isSome)
  queued : s.header.shared.queued = true ↔ ∃ e ∈ s.exchanges, e.Sinks
  queuedOnce : s.header.shared.queued = true → ∃! t, (s.pc t).queues = true
  unqueued : s.header.shared.queued = false → ∀ t, (s.pc t).queues = false
  droppedOnce : (∃ e ∈ s.exchanges, e.Kills) → ∃! t, (s.pc t).drops = true
  undropped : (∀ e ∈ s.exchanges, ¬ e.Kills) → ∀ t, (s.pc t).drops = false
  apart : ∀ t, ¬ ((s.pc t).queues = true ∧ (s.pc t).drops = true)

/-- The invariant of the runs from `s₀`. -/
structure Inv (s₀ s : Decrements pw Tid) : Prop where
  count : s.count + Fintype.card Tid = s₀.count + s.outstanding + OwnerMerge.added s.merge
  merged : s.header.shared.merged = (s₀.header.shared.merged || s.merge.isSome)
  enough : s.header.shared.merged = true → (s.outstanding : Int) ≤ s.count
  unqueued : s.header.shared.queued = false → 0 ≤ s.count
  loaded : ∀ t old new, s.pc t = .exchange old new → old.decremented = .ok new
  keepsMerged : ∀ e ∈ s.exchanges, e.new.merged = e.old.merged
  sunk : s.header.shared.queued = true ↔ ∃ e ∈ s.exchanges, e.Sinks
  queuedOnce : s.header.shared.queued = true → ∃! t, (s.pc t).queues = true
  queues : ∀ t, (s.pc t).queues = true → s.header.shared.queued = true
  last : (∃ e ∈ s.exchanges, e.Kills) → s.outstanding = 0
  droppedOnce : (∃ e ∈ s.exchanges, e.Kills) → ∃! t, (s.pc t).drops = true
  drops : ∀ t, (s.pc t).drops = true → ∃ e ∈ s.exchanges, e.Kills
  apart : ∀ t, ¬ ((s.pc t).queues = true ∧ (s.pc t).drops = true)

namespace Inv

variable {s₀ s s' : Decrements pw Tid} {t : Tid}

omit [DecidableEq Tid] in
theorem outcome (inv : s₀.Inv s) : s₀.Outcome s where
  count := by
    intro finished
    have count := inv.count
    omega
  keepsMerged := inv.keepsMerged
  merged := inv.merged
  queued := inv.sunk
  queuedOnce := inv.queuedOnce
  unqueued := by
    intro unqueued t
    by_contra queues
    rw [Bool.not_eq_false] at queues
    exact Bool.false_ne_true (unqueued.symm.trans (inv.queues t queues))
  droppedOnce := inv.droppedOnce
  undropped := by
    intro none t
    by_contra drops
    rw [Bool.not_eq_false] at drops
    obtain ⟨e, listed, kills⟩ := inv.drops t drops
    exact none e listed kills
  apart := inv.apart

omit [DecidableEq Tid] in
theorem start (start : s₀.Start) : s₀.Inv s₀ := by
  have all : s₀.outstanding = Fintype.card Tid := by
    simp only [outstanding, tally, start.pc, DecrementPc.outstanding]
    exact (Finset.card_eq_sum_ones Finset.univ).symm
  have none : ¬ ∃ e ∈ s₀.exchanges, e.Kills := by
    rw [start.exchanges]
    rintro ⟨_, listed, _⟩
    cases listed
  exact {
    count := by rw [all, start.merge]; exact (Int.add_zero _).symm
    merged := by rw [start.merge]; exact (Bool.or_false _).symm
    enough := by rw [all]; exact start.merged
    unqueued := by
      intro _
      cases merged : s₀.header.shared.merged with
      | false => exact start.unmerged merged
      | true =>
          have enough := start.merged merged
          omega
    loaded := by
      intro t old new pc
      cases (start.pc t).symm.trans pc
    keepsMerged := by rw [start.exchanges]; simp
    sunk := by
      rw [start.unqueued, start.exchanges]
      simp
    queuedOnce := by rw [start.unqueued]; rintro ⟨⟩
    queues := by
      intro t queues
      rw [start.pc t] at queues
      cases queues
    last := fun kills => absurd kills none
    droppedOnce := fun kills => absurd kills none
    drops := by
      intro t drops
      rw [start.pc t] at drops
      cases drops
    apart := by
      rintro t ⟨queues, _⟩
      rw [start.pc t] at queues
      cases queues }

/-- A load, or an exchange that failed. -/
theorem tryDecrement (inv : s₀.Inv s) (pc : (s.pc t).outstanding = 1)
    (returned : s.tryDecrement t = .ok s') : s₀.Inv s' := by
  obtain ⟨new, decremented, rfl⟩ : ∃ new, s.header.shared.decremented = .ok new ∧
      s.goto t (.exchange s.header.shared new) = s' := by
    unfold Decrements.tryDecrement at returned
    cases decremented : s.header.shared.decremented with
    | error fault => rw [decremented] at returned; cases returned
    | ok new =>
        rw [decremented] at returned
        exact ⟨new, rfl, Except.ok.inj returned⟩
  have silent : (s.pc t).queues = false ∧ (s.pc t).drops = false := by
    cases before : s.pc t with
    | load | exchange => exact ⟨rfl, rfl⟩
    | finished => rw [before] at pc; cases pc
  have same : (s.goto t (.exchange s.header.shared new)).outstanding = s.outstanding := by
    have moved := tally_of_others DecrementPc.outstanding
      fun t' other => (pc_goto_of_ne other : (s.goto t (.exchange s.header.shared new)).pc t' = _)
    rw [pc_goto_self, pc] at moved
    exact Nat.add_right_cancel moved
  have queues : ∀ t', ((s.goto t (.exchange s.header.shared new)).pc t').queues = (s.pc t').queues := by
    intro t'
    by_cases own : t' = t
    · rw [own, pc_goto_self, silent.1]
      rfl
    · rw [pc_goto_of_ne own]
  have drops : ∀ t', ((s.goto t (.exchange s.header.shared new)).pc t').drops = (s.pc t').drops := by
    intro t'
    by_cases own : t' = t
    · rw [own, pc_goto_self, silent.2]
      rfl
    · rw [pc_goto_of_ne own]
  exact {
    count := by rw [same]; exact inv.count
    merged := inv.merged
    enough := by rw [same]; exact inv.enough
    unqueued := inv.unqueued
    loaded := by
      intro t' old new' at_exchange
      by_cases own : t' = t
      · rw [own, pc_goto_self] at at_exchange
        cases at_exchange
        exact decremented
      · rw [pc_goto_of_ne own] at at_exchange
        exact inv.loaded t' old new' at_exchange
    keepsMerged := inv.keepsMerged
    sunk := inv.sunk
    queuedOnce := by simpa only [queues, header_goto] using inv.queuedOnce
    queues := by simpa only [queues, header_goto] using inv.queues
    last := by rw [same]; exact inv.last
    droppedOnce := by simpa only [drops, exchanges_goto] using inv.droppedOnce
    drops := by simpa only [drops, exchanges_goto] using inv.drops
    apart := by simpa only [queues, drops] using inv.apart }

/-- What a successful exchange finds and leaves. -/
theorem exchanged (inv : s₀.Inv s) {old new : SharedWord pw} (pc : s.pc t = .exchange old new)
    (current : s.header.shared = old) : s₀.Inv (s.exchanged t old new) := by
  have decremented := inv.loaded t old new pc
  obtain ⟨count, merged, queued⟩ := SharedWord.decremented_eq_ok decremented
  have won := SharedWord.wonQueue_eq_true decremented
  have dead : new.isDead = true ↔ Exchange.Kills ⟨old, new⟩ := SharedWord.isDead_eq_true
  have value : old.sharedCount.value = s.count := by rw [← current]; rfl
  have less := outstanding_exchanged pc
  have ownQueues : ((s.exchanged t old new).pc t).queues = old.wonQueue new := queues_exchanged
  have ownDrops := drops_exchanged decremented (s := s) (t := t)
  -- Nothing was killed before, as this decrement was still to come.
  have unkilled : ¬ ∃ e ∈ s.exchanges, e.Kills := by
    intro killed
    have := inv.last killed
    omega
  have enough : old.merged = true → (s.outstanding : Int) ≤ old.sharedCount.value := by
    intro wasMerged
    rw [value]
    exact inv.enough (current ▸ wasMerged)
  have sinks : Exchange.Sinks ⟨old, new⟩ ↔ new.sharedCount.value < 0 := by
    refine ⟨And.right, fun negative => ⟨?_, negative⟩⟩
    by_contra wasMerged
    have := enough (Bool.eq_true_of_not_eq_false wasMerged)
    omega
  have nowQueued : (s.exchanged t old new).header.shared.queued = true ↔
      s.header.shared.queued = true ∨ ((s.exchanged t old new).pc t).queues = true := by
    rw [shared_exchanged, ownQueues, won, queued, current]
    cases old.queued <;> simp
  have firstQueued : ((s.exchanged t old new).pc t).queues = true →
      ¬ s.header.shared.queued = true := by
    rw [ownQueues, won, current]
    rintro ⟨unqueued, _⟩
    exact Bool.eq_false_iff.mp unqueued
  have nowKilled : (∃ e ∈ (s.exchanged t old new).exchanges, e.Kills) ↔
      (∃ e ∈ s.exchanges, e.Kills) ∨ ((s.exchanged t old new).pc t).drops = true := by
    rw [exists_mem_exchanged, ownDrops, dead]
  have queues := claimed_once (fun t' other => congrArg DecrementPc.queues (pc_exchanged_of_ne other))
    (congrArg DecrementPc.queues pc) nowQueued firstQueued inv.queuedOnce inv.queues
  have drops := claimed_once (fun t' other => congrArg DecrementPc.drops (pc_exchanged_of_ne other))
    (congrArg DecrementPc.drops pc) nowKilled (fun _ => unkilled) inv.droppedOnce inv.drops
  exact {
    count := by
      have before := inv.count
      have after : (s.exchanged t old new).count = new.sharedCount.value := by
        rw [Decrements.count, shared_exchanged]
      change _ = s₀.count + _ + (OwnerMerge.added s.merge : Int)
      omega
    merged := by
      rw [shared_exchanged, merged, ← current]
      exact inv.merged
    enough := by
      rw [shared_exchanged, merged, Decrements.count, shared_exchanged]
      intro wasMerged
      have := enough wasMerged
      omega
    unqueued := by
      rw [shared_exchanged, Decrements.count, shared_exchanged, queued]
      intro unqueued
      simpa using (Bool.or_eq_false_iff.mp unqueued).2
    loaded := by
      intro t' old' new' at_exchange
      by_cases same : t' = t
      · rw [same] at at_exchange
        have finished : ((s.exchanged t old new).pc t).outstanding = 0 := outstanding_of_exchanged
        rw [at_exchange] at finished
        cases finished
      · rw [pc_exchanged_of_ne same] at at_exchange
        exact inv.loaded t' old' new' at_exchange
    keepsMerged := by
      intro e inList
      rcases mem_exchanged.mp inList with earlier | rfl
      · exact inv.keepsMerged e earlier
      · exact merged
    sunk := by
      have before := inv.sunk
      rw [current] at before
      rw [exists_mem_exchanged, shared_exchanged, queued, Bool.or_eq_true, before, decide_eq_true_eq,
        sinks]
    queuedOnce := queues.1
    queues := queues.2
    last := by
      rw [exists_mem_exchanged]
      rintro (earlier | kills)
      · exact absurd earlier unkilled
      · have left := enough (merged.symm.trans kills.1)
        have zero : new.sharedCount.value = 0 := kills.2
        omega
    droppedOnce := drops.1
    drops := drops.2
    apart := by
      intro t' both
      by_cases same : t' = t
      · rw [same, ownQueues, ownDrops, won, dead] at both
        have negative := both.1.2
        have zero : new.sharedCount.value = 0 := both.2.2
        omega
      · rw [pc_exchanged_of_ne same] at both
        exact inv.apart t' both }

omit [DecidableEq Tid] in
/-- The owner's step leaves the calls alone. -/
theorem merge (inv : s₀.Inv s) {kind : OwnerMerge} {header : RawBrcHeader pw} (first : s.merge = none)
    (returned : s.merged kind = .ok header)
    (enough : (s.outstanding : Int) ≤ header.shared.sharedCount.value) :
    s₀.Inv { s with header, merge := some kind } := by
  obtain ⟨value, merged, queued⟩ : header.shared.sharedCount.value =
      s.count + OwnerMerge.added (some kind) ∧ header.shared.merged = true ∧
        header.shared.queued = s.header.shared.queued := by
    cases kind with
    | fetchOr =>
        cases returned
        rw [RawBrcHeader.shared_fetchOrMerged]
        exact ⟨(Int.add_zero _).symm, rfl, rfl⟩
    | exchange biased =>
        simp only [Decrements.merged] at returned
        cases made : s.header.shared.mergedWith biased with
        | error fault => rw [made] at returned; cases returned
        | ok new =>
            rw [made] at returned
            cases returned
            obtain ⟨_, value, merged, queued⟩ := SharedWord.mergedWith_eq_ok made
            rw [RawBrcHeader.shared_storeShared]
            exact ⟨value, merged, queued⟩
  have count := inv.count
  rw [first] at count
  exact {
    count := by
      change header.shared.sharedCount.value + (Fintype.card Tid : Int) = s₀.count + s.outstanding +
        OwnerMerge.added (some kind)
      simp only [OwnerMerge.added] at count
      omega
    merged := by simp [merged]
    enough := fun _ => enough
    unqueued := fun _ => (Int.natCast_nonneg _).trans enough
    loaded := inv.loaded
    keepsMerged := inv.keepsMerged
    sunk := queued.symm ▸ inv.sunk
    queuedOnce := queued.symm ▸ inv.queuedOnce
    queues := queued.symm ▸ inv.queues
    last := inv.last
    droppedOnce := inv.droppedOnce
    drops := inv.drops
    apart := inv.apart }

theorem next (inv : s₀.Inv s) {a : DecrementAct Tid} (taken : s.next a = some s') : s₀.Inv s' := by
  cases a with
  | advance t spurious =>
      simp only [Decrements.next, Option.ite_none_left_eq_some] at taken
      obtain ⟨outstanding, returned⟩ := taken
      rw [toOption_eq_some] at returned
      unfold Decrements.advance at returned
      cases pc : s.pc t with
      | load =>
          simp only [pc] at returned
          exact inv.tryDecrement (by rw [pc]; rfl) returned
      | exchange old new =>
          simp only [pc] at returned
          split at returned
          · rename_i exchanged
            cases returned
            exact inv.exchanged pc (exchanges_iff.mp exchanged).2
          · exact inv.tryDecrement (by rw [pc]; rfl) returned
      | finished => exact absurd (by rw [pc]; rfl) outstanding
  | merge kind =>
      simp only [Decrements.next] at taken
      split at taken
      · rename_i header first returned
        rw [Option.ite_none_right_eq_some, Option.some.injEq] at taken
        obtain ⟨enough, rfl⟩ := taken
        exact inv.merge first (toOption_eq_some.mp returned) enough
      · cases taken

end Inv

/-- Every schedule of the calls and the merge comes to the same. -/
theorem decrements_conserved {s₀ s : Decrements pw Tid} {labels : List (DecrementAct Tid)}
    (start : s₀.Start) (run : Run (system pw Tid) s₀ labels s) : s₀.Outcome s :=
  (run.invariant (Inv.start start) fun _ _ _ inv taken => inv.next taken).outcome

/-- An unmerged count of one, and two threads that give up a handle. -/
def twoDecrements : Decrements .w64 (Fin 2) where
  header := (RawBrcHeader.init none).storeShared ⟨.ofInt 1, false, false⟩
  pc := fun _ => .load
  merge := none
  exchanges := []

theorem twoDecrements_start : twoDecrements.Start where
  pc := fun _ => rfl
  merge := rfl
  exchanges := rfl
  unqueued := by decide
  unmerged := by decide
  merged := by decide

/-- Both threads load the same word, and one of them exchanges it first; the other
    meets a merge, too, and then the exchange that kills the object. -/
theorem decrements_conserved_at_end :
    ∃ s, twoDecrements.Outcome s ∧ s.outstanding = 0 ∧ ∃ e ∈ s.exchanges, e.Kills := by
  have finishes : ((replay (guarded (fun _ _ => True) next) twoDecrements
      [.advance 0 false, .advance 1 false, .advance 1 false, .advance 0 false,
        .merge (.exchange 1), .advance 0 false, .advance 0 true, .advance 0 false]).any
      fun s => decide (s.outstanding = 0 ∧ ∃ e ∈ s.exchanges, e.Kills)) = true := by
    decide +kernel
  obtain ⟨s, ends, holds⟩ := (Option.any_eq_true _ _).mp finishes
  exact ⟨s, decrements_conserved twoDecrements_start (Run.of_replay ends).of_restrict,
    of_decide_eq_true holds⟩

end Decrements

end BiasedRc
