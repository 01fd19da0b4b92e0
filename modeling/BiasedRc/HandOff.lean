import BiasedRc.MergeQueue

/-! # Every queued object is merged once, across the death of its owner

The queue may be drained by its live owner, by the destructor of the owner's
state or by a late push that held the last reference, and a push that finds the
queue gone merges its object itself. What holds throughout: the references to the
queue are counted, an object is in one place from its push to its merge, and the
queue is gone only after the owner has cleared its short id.
-/

namespace BiasedRc

open Tally Transition System

variable {Call : Type} [DecidableEq Call]

/-- The call holds a reference to the queue. -/
def PushPc.holds : PushPc Call → Nat
  | .push | .exchange | .release => 1
  | _ => 0

/-- The call is in the destructor of the queue. -/
def PushPc.draining : PushPc Call → Nat
  | .drain _ => 1
  | _ => 0

/-- The call has popped `q` and is about to merge it. -/
def PushPc.carries (q : Call) : PushPc Call → Nat
  | .drain (.merge object) => if object = q then 1 else 0
  | _ => 0

/-- The call has seen the end of the queue. -/
def PushPc.late : PushPc Call → Bool
  | .drain _ | .loadFlag | .merge => true
  | _ => false

/-- The call has handed its object over, to the queue or to `explicit_merge`. -/
def PushPc.handed : PushPc Call → Nat
  | .exchange | .release | .drain _ | .returned => 1
  | _ => 0

namespace OwnerPc

def holds : OwnerPc Call → Nat
  | .live collections => 1 + collections.countP (·.pc.holds)
  | .swapDying | .dropQueue => 1
  | _ => 0

def draining : OwnerPc Call → Nat
  | .drain _ => 1
  | _ => 0

def carries (q : Call) : OwnerPc Call → Nat
  | .live collections => collections.countP fun c => c.pc = .merge q
  | .drain (.merge object) => if object = q then 1 else 0
  | _ => 0

/-- The flags that the owner can have, where it is. -/
def Shows : OwnerPc Call → ThreadStateFlag → Prop
  | .live _, flag | .swapDying, flag => flag.isLive = true
  | .dropQueue, flag | .drain _, flag | .switchDead, flag => flag = .dying
  | .dead, flag => flag = .dead

omit [DecidableEq Call] in
theorem Shows.markQueued {pc : OwnerPc Call} {flag : ThreadStateFlag} (shows : pc.Shows flag) :
    pc.Shows flag.markQueued := by
  cases pc <;> cases flag <;> simp [Shows, ThreadStateFlag.markQueued, ThreadStateFlag.isLive] at shows ⊢

def isLive : OwnerPc Call → Bool
  | .live _ => true
  | _ => false

end OwnerPc

namespace MergeQueue

/-- How often an object was passed to `explicit_merge`. -/
def mergesOf (s : MergeQueue Call) (q : Call) : Nat := s.merges.countP (·.object = q)

/-- What the callers of `queue_object` rely on. The queue is destroyed when its last
    reference is released. -/
structure HandedOff (s : MergeQueue Call) : Prop where
  once : s.owner = .dead → (∀ p, s.pushers p = .before ∨ s.pushers p = .returned) →
    ∀ p, s.pushers p = .returned → s.mergesOf p = 1
  notDestroyed : ∀ p, s.pushers p = .push → s.strong ≠ 0
  asserted : s.fault = none
  exclusive : ∀ m ∈ s.merges, m.onOwner = true ∨ m.cleared = true

variable [Fintype Call]

/-- The invariant of the queue and of all who use it. -/
structure Conserved (s : MergeQueue Call) : Prop where
  strong : s.strong = s.owner.holds + tally PushPc.holds s.pushers
  shows : s.owner.Shows s.flag
  cleared : s.cleared = !s.owner.isLive
  late : ∀ p, (s.pushers p).late = true → s.strong = 0
  ownerDrains : s.owner.draining = 1 → s.strong = 0
  /-- A queue without references and without anyone who drains it is empty. -/
  drained : s.strong = 0 → s.owner.draining = 0 → tally PushPc.draining s.pushers = 0 → s.queue = []
  /-- From its push to its merge an object is in the queue or in the hands of one drain. -/
  located : ∀ q, s.queue.count q + s.owner.carries q + tally (PushPc.carries q) s.pushers +
    s.mergesOf q = (s.pushers q).handed
  safe : ∀ m ∈ s.merges, m.onOwner = true ∨ m.cleared = true
  fault : s.fault = none

omit [DecidableEq Call] in
theorem tally_before {weight : PushPc Call → Nat} (zero : weight .before = 0) :
    tally weight (initial : MergeQueue Call).pushers = 0 := tally_const_zero zero

theorem initial_conserved : Conserved (initial : MergeQueue Call) where
  strong := by rw [tally_before rfl]; rfl
  shows := rfl
  cleared := rfl
  late := nofun
  ownerDrains := nofun
  drained _ _ _ := rfl
  located q := by rw [tally_before rfl]; rfl
  safe := nofun
  fault := rfl

omit [Fintype Call] in
@[simp] theorem mergesOf_merged (s : MergeQueue Call) (object q : Call) (onOwner : Bool) :
    (s.merged object onOwner).mergesOf q = s.mergesOf q + if object = q then 1 else 0 := by
  simp [mergesOf, merged, List.countP_append, List.countP_cons]

namespace Conserved

variable {s s' : MergeQueue Call} {p : Call}

/-- Without references the owner has dropped its own, so it has cleared its id. -/
theorem cleared_of_gone (inv : s.Conserved) (gone : s.strong = 0) : s.cleared = true := by
  have strong := inv.strong
  rw [inv.cleared]
  cases owner : s.owner <;> simp [owner, OwnerPc.holds, OwnerPc.isLive] at strong ⊢
  omega

theorem dying_of_gone (inv : s.Conserved) (gone : s.strong = 0) : s.flag.isLive = false := by
  have strong := inv.strong
  have shows := inv.shows
  cases owner : s.owner <;> simp only [owner, OwnerPc.holds, OwnerPc.Shows] at strong shows
  · omega
  · omega
  · omega
  all_goals
    rw [shows]
    rfl

/-- A step of one push from `old` to `pc`, told by what it changes. -/
theorem push (inv : s.Conserved) {old pc : PushPc Call} (before : s.pushers p = old)
    (owner : s'.owner = s.owner) (cleared : s'.cleared = s.cleared) (fault : s'.fault = s.fault)
    (pushers : s'.pushers = s.pushers) (shows : s.owner.Shows s'.flag)
    (strong : s'.strong + old.holds = s.strong + pc.holds)
    (late : pc.late = true → s'.strong = 0) (gone : s.strong = 0 → s'.strong = 0)
    (drained : s'.strong = 0 → s.owner.draining = 0 → pc.draining = 0 →
      tally PushPc.draining s.pushers = old.draining → s'.queue = [])
    (located : ∀ q, s'.queue.count q + pc.carries q + s'.mergesOf q +
        (if q = p then old.handed else 0) =
      s.queue.count q + old.carries q + s.mergesOf q + if q = p then pc.handed else 0)
    (safe : ∀ m ∈ s'.merges, m ∈ s.merges ∨ m.onOwner = true ∨ m.cleared = true) :
    (s'.goto p pc).Conserved := by
  subst before
  have moved : ∀ weight : PushPc Call → Nat, tally weight (s'.goto p pc).pushers +
      weight (s.pushers p) = tally weight s.pushers + weight pc := fun weight => by
    simpa only [goto, pushers] using tally_update weight s.pushers p pc
  exact {
    strong := by
      have before := inv.strong
      have held := moved PushPc.holds
      change s'.strong = s'.owner.holds + _
      rw [owner]
      omega
    shows := by
      change s'.owner.Shows s'.flag
      rwa [owner]
    cleared := by
      change s'.cleared = !s'.owner.isLive
      rw [cleared, owner, inv.cleared]
    late := by
      intro q isLate
      by_cases same : q = p
      · subst same
        exact late (by simpa using isLate)
      · rw [goto_other same, pushers] at isLate
        exact gone (inv.late q isLate)
    ownerDrains := fun draining => gone (inv.ownerDrains (owner ▸ draining))
    drained := by
      intro empty idle none
      have draining := moved PushPc.draining
      have mine := le_tally PushPc.draining (s'.goto p pc).pushers p
      rw [goto_self] at mine
      exact drained empty (owner ▸ idle) (by omega) (by omega)
    located := by
      intro q
      have before := inv.located q
      have carried := moved (PushPc.carries q)
      have change := located q
      change s'.queue.count q + s'.owner.carries q + _ + s'.mergesOf q = _
      rw [owner]
      by_cases same : q = p
      · subst same
        simp only [if_true, goto_self] at change ⊢
        omega
      · simp only [same, if_false, goto_other same, pushers] at change ⊢
        omega
    safe := by
      intro m listed
      exact (safe m listed).elim (inv.safe m) id
    fault := fault.trans inv.fault }

/-- A step that moves no object and leaves the queue and its references alone. -/
theorem pushQuiet (inv : s.Conserved) {old pc : PushPc Call} (before : s.pushers p = old)
    (holds : old.holds = pc.holds) (late : pc.late = true → s.strong = 0)
    (draining : old.draining = 0) (carries : ∀ q, pc.carries q = old.carries q)
    (handed : pc.handed = old.handed) : (s.goto p pc).Conserved := by
  refine inv.push before rfl rfl rfl rfl inv.shows (by rw [holds]) late id ?_ ?_ fun _ => .inl
  · intro empty idle _ none
    exact inv.drained empty idle (none.trans draining)
  · intro q
    rw [carries, handed]

theorem positive (inv : s.Conserved) {pc : PushPc Call} (before : s.pushers p = pc)
    (holds : pc.holds = 1) : 1 ≤ s.strong := by
  subst before
  have strong := inv.strong
  have mine := le_tally PushPc.holds s.pushers p
  omega

omit [DecidableEq Call] [Fintype Call] in
theorem mergedSafe {object : Call} {onOwner : Bool} (safe : onOwner = true ∨ s.cleared = true) :
    ∀ m ∈ (s.merged object onOwner).merges, m ∈ s.merges ∨ m.onOwner = true ∨ m.cleared = true := by
  intro m listed
  rcases List.mem_append.mp listed with earlier | latest
  · exact .inl earlier
  · obtain rfl := List.mem_singleton.mp latest
    exact .inr safe

theorem pushStep (inv : s.Conserved) (taken : s.pushStep p = some s') : s'.Conserved := by
  unfold MergeQueue.pushStep at taken
  cases pc : s.pushers p with
  | before =>
      simp only [pc, Option.some.injEq] at taken
      exact taken ▸ inv.pushQuiet pc rfl nofun rfl (fun _ => rfl) rfl
  | upgrade =>
      simp only [pc] at taken
      split at taken <;> cases taken
      · rename_i gone
        exact inv.pushQuiet pc rfl (fun _ => gone) rfl (fun _ => rfl) rfl
      · rename_i alive
        exact inv.push pc rfl rfl rfl rfl inv.shows rfl nofun (absurd · alive) nofun (fun _ => rfl)
          fun _ => .inl
  | push =>
      simp only [pc, Option.some.injEq] at taken
      subst taken
      have alive := inv.positive pc rfl
      refine inv.push pc rfl rfl rfl rfl inv.shows rfl nofun id ?_ ?_ fun _ => .inl
      · intro empty
        change s.strong = 0 at empty
        omega
      · intro q
        change (s.queue ++ [p]).count q + 0 + s.mergesOf q + (if q = p then 0 else 0) =
          s.queue.count q + 0 + s.mergesOf q + if q = p then 1 else 0
        simp only [List.count_append, List.count_singleton, beq_iff_eq, eq_comm (a := p)]
        split <;> omega
  | exchange =>
      simp only [pc, Option.some.injEq] at taken
      subst taken
      have alive := inv.positive pc rfl
      refine inv.push pc rfl rfl rfl rfl ?_ rfl nofun id ?_ (fun _ => rfl) fun _ => .inl
      · exact inv.shows.markQueued
      · intro empty
        change s.strong = 0 at empty
        omega
  | release =>
      simp only [pc, Option.some.injEq] at taken
      subst taken
      have alive := inv.positive pc rfl
      by_cases last : s.strong = 1
      · simp only [last, if_true]
        refine inv.push pc rfl rfl rfl rfl inv.shows ?_ (fun _ => rfl) (fun _ => rfl) nofun
          (fun _ => rfl) fun _ => .inl
        change 0 + 1 = s.strong + 0
        omega
      · simp only [last, if_false]
        refine inv.push pc rfl rfl rfl rfl inv.shows ?_ nofun ?_ ?_ (fun _ => rfl) fun _ => .inl
        · change s.strong - 1 + 1 = s.strong + 0
          omega
        · intro gone
          omega
        · intro empty
          change s.strong - 1 = 0 at empty
          omega
  | drain pc' =>
      have gone : s.strong = 0 := inv.late p (by rw [pc]; rfl)
      cases pc' with
      | pop =>
          simp only [pc] at taken
          cases listed : s.queue with
          | nil =>
              simp only [listed, Option.some.injEq] at taken
              subst taken
              exact inv.push pc rfl rfl rfl rfl inv.shows rfl nofun id (fun _ _ _ _ => listed)
                (fun _ => rfl) fun _ => .inl
          | cons object rest =>
              simp only [listed, Option.some.injEq] at taken
              subst taken
              refine inv.push pc rfl rfl rfl rfl inv.shows rfl (fun _ => gone) id nofun ?_ fun _ => .inl
              intro q
              change rest.count q + (if object = q then 1 else 0) + s.mergesOf q +
                (if q = p then 1 else 0) = s.queue.count q + 0 + s.mergesOf q + if q = p then 1 else 0
              rw [listed, List.count_cons]
              simp only [beq_iff_eq]
              omega
      | merge object =>
          simp only [pc, Option.some.injEq] at taken
          subst taken
          refine inv.push pc rfl rfl rfl rfl inv.shows rfl (fun _ => gone) id nofun ?_ ?_
          · intro q
            rw [mergesOf_merged]
            change s.queue.count q + 0 + _ + (if q = p then 1 else 0) =
              s.queue.count q + (if object = q then 1 else 0) + _ + if q = p then 1 else 0
            omega
          · exact mergedSafe (.inr (inv.cleared_of_gone gone))
  | loadFlag =>
      have gone : s.strong = 0 := inv.late p (by rw [pc]; rfl)
      simp only [pc, inv.dying_of_gone gone, Bool.false_eq_true, if_false, Option.some.injEq] at taken
      exact taken ▸ inv.pushQuiet pc rfl (fun _ => gone) rfl (fun _ => rfl) rfl
  | merge =>
      have gone : s.strong = 0 := inv.late p (by rw [pc]; rfl)
      simp only [pc, Option.some.injEq] at taken
      subst taken
      refine inv.push pc rfl rfl rfl rfl inv.shows rfl nofun id ?_ ?_ ?_
      · intro empty idle _ none
        exact inv.drained empty idle none
      · intro q
        rw [mergesOf_merged]
        change s.queue.count q + 0 + _ + (if q = p then 0 else 0) =
          s.queue.count q + 0 + _ + if q = p then 1 else 0
        simp only [eq_comm (a := p)]
        split <;> omega
      · exact mergedSafe (.inr (inv.cleared_of_gone gone))
  | returned => simp [pc] at taken

/-- A step of the owner from `old` to `owner'`, told by what it changes. -/
theorem own (inv : s.Conserved) {old owner' : OwnerPc Call} (before : s.owner = old)
    (owner : s'.owner = owner') (pushers : s'.pushers = s.pushers) (fault : s'.fault = none)
    (shows : owner'.Shows s'.flag) (cleared : s'.cleared = !owner'.isLive)
    (strong : s'.strong + old.holds = s.strong + owner'.holds)
    (gone : s.strong = 0 → s'.strong = 0) (draining : owner'.draining = 1 → s'.strong = 0)
    (drained : s'.strong = 0 → owner'.draining = 0 → tally PushPc.draining s.pushers = 0 →
      s'.queue = [])
    (located : ∀ q, s'.queue.count q + owner'.carries q + s'.mergesOf q =
      s.queue.count q + old.carries q + s.mergesOf q)
    (safe : ∀ m ∈ s'.merges, m ∈ s.merges ∨ m.onOwner = true ∨ m.cleared = true) :
    s'.Conserved where
  strong := by
    have held := inv.strong
    rw [before] at held
    rw [owner, pushers]
    omega
  shows := owner ▸ shows
  cleared := owner ▸ cleared
  late q isLate := gone (inv.late q (pushers ▸ isLate))
  ownerDrains := owner ▸ draining
  drained empty idle none := drained empty (owner ▸ idle) (pushers ▸ none)
  located q := by
    have found := inv.located q
    have change := located q
    rw [before] at found
    rw [owner, pushers]
    omega
  safe m listed := (safe m listed).elim (inv.safe m) id
  fault := fault

theorem destroyStep (inv : s.Conserved) (taken : s.destroyStep = some s') : s'.Conserved := by
  have strong := inv.strong
  have shows := inv.shows
  unfold MergeQueue.destroyStep at taken
  cases owner : s.owner with
  | live collections =>
      cases collections with
      | cons c outer => simp [owner] at taken
      | nil =>
          simp only [owner, Option.some.injEq] at taken shows
          subst taken
          refine inv.own owner rfl rfl inv.fault shows rfl rfl id nofun ?_ (fun _ => rfl) fun _ => .inl
          intro empty
          simp only [owner, OwnerPc.holds] at strong empty
          omega
  | swapDying =>
      have live : s.flag.isLive = true := by rwa [owner] at shows
      simp only [owner, live, if_true, Option.some.injEq] at taken
      subst taken
      have cleared : s.cleared = true := by rw [inv.cleared, owner]; rfl
      refine inv.own owner rfl rfl inv.fault rfl cleared rfl id nofun ?_ (fun _ => rfl) fun _ => .inl
      intro empty
      simp only [owner, OwnerPc.holds] at strong empty
      omega
  | dropQueue =>
      simp only [owner, Option.some.injEq] at taken shows
      subst taken
      have cleared : s.cleared = true := by rw [inv.cleared, owner]; rfl
      have alive : 1 ≤ s.strong := by
        simp only [owner, OwnerPc.holds] at strong
        omega
      by_cases last : s.strong = 1
      · refine inv.own owner (if_pos last) rfl inv.fault shows cleared ?_ ?_ ?_ nofun (fun _ => rfl)
          fun _ => .inl
        · change s.strong - 1 + 1 = s.strong + 0
          omega
        · intro gone
          omega
        · intro _
          change s.strong - 1 = 0
          omega
      · refine inv.own owner (if_neg last) rfl inv.fault shows cleared ?_ ?_ nofun ?_ (fun _ => rfl)
          fun _ => .inl
        · change s.strong - 1 + 1 = s.strong + 0
          omega
        · intro gone
          omega
        · intro empty
          change s.strong - 1 = 0 at empty
          omega
  | drain pc =>
      have gone : s.strong = 0 := inv.ownerDrains (by rw [owner]; rfl)
      have cleared := inv.cleared_of_gone gone
      rw [owner] at shows
      cases pc with
      | pop =>
          cases listed : s.queue with
          | nil =>
              simp only [owner, listed, Option.some.injEq] at taken
              subst taken
              refine inv.own owner rfl rfl inv.fault shows cleared rfl id nofun (fun _ _ _ => rfl) ?_
                fun _ => .inl
              intro q
              rw [listed]
              rfl
          | cons object rest =>
              simp only [owner, listed, Option.some.injEq] at taken
              subst taken
              refine inv.own owner rfl rfl inv.fault shows cleared rfl id (fun _ => gone) nofun ?_
                fun _ => .inl
              intro q
              rw [listed]
              change rest.count q + (if object = q then 1 else 0) + s.mergesOf q = _ + 0 + _
              rw [List.count_cons]
              simp only [beq_iff_eq]
              omega
      | merge object =>
          simp only [owner, Option.some.injEq] at taken
          subst taken
          refine inv.own owner rfl rfl inv.fault shows cleared rfl id (fun _ => gone) nofun ?_
            (mergedSafe (.inl rfl))
          intro q
          have merged := mergesOf_merged s object q true
          change s.queue.count q + 0 + (s.merged object true).mergesOf q =
            s.queue.count q + (if object = q then 1 else 0) + s.mergesOf q
          omega
  | switchDead =>
      have dying : s.flag = .dying := by rwa [owner] at shows
      simp only [owner, dying, if_true, Option.some.injEq] at taken
      subst taken
      have cleared : s.cleared = true := by rw [inv.cleared, owner]; rfl
      exact inv.own owner rfl rfl inv.fault rfl cleared rfl id nofun
        (fun empty _ none => inv.drained empty (by rw [owner]; rfl) none) (fun _ => rfl) fun _ => .inl
  | dead => simp [owner] at taken

/-- While the owner lives its own reference keeps the queue alive. -/
theorem alive (inv : s.Conserved) {collections} (live : s.owner = .live collections) :
    s.strong = 1 + collections.countP (·.pc.holds) + tally PushPc.holds s.pushers := by
  rw [inv.strong, live]
  rfl

/-- A step of the innermost collection of a live owner. -/
theorem collecting (inv : s.Conserved) {collections collections' : List (Collection Call)}
    (live : s.owner = .live collections) (pushers : s'.pushers = s.pushers)
    (fault : s'.fault = s.fault) (shows : s'.flag.isLive = true) (cleared : s'.cleared = s.cleared)
    (strong : s'.strong + collections.countP (·.pc.holds) =
      s.strong + collections'.countP (·.pc.holds))
    (located : ∀ q, s'.queue.count q + collections'.countP (fun c => c.pc = .merge q) +
      s'.mergesOf q = s.queue.count q + collections.countP (fun c => c.pc = .merge q) + s.mergesOf q)
    (safe : ∀ m ∈ s'.merges, m ∈ s.merges ∨ m.onOwner = true ∨ m.cleared = true) :
    (s'.collecting collections').Conserved := by
  have alive := inv.alive live
  refine inv.own live rfl pushers (fault.trans inv.fault) shows ?_ ?_ ?_ nofun ?_ located safe
  · change s'.cleared = false
    rw [cleared, inv.cleared, live]
    rfl
  · change s'.strong + (1 + _) = s.strong + (1 + _)
    omega
  · intro gone
    omega
  · intro empty
    change s'.strong = 0 at empty
    omega

theorem leave (inv : s.Conserved) {c : Collection Call} {outer : List (Collection Call)}
    (live : s.owner = .live (c :: outer)) (pc : c.pc = .release) : (s.leave outer).Conserved := by
  have holds : c.pc.holds = true := by rw [pc]; rfl
  have alive := inv.alive live
  rw [List.countP_cons_of_pos (by simpa using holds)] at alive
  have shows := inv.shows
  rw [live] at shows
  unfold MergeQueue.leave
  rw [if_neg (by omega)]
  refine inv.collecting live rfl rfl shows rfl ?_ ?_ fun _ => .inl
  · change s.strong - 1 + _ = _
    rw [List.countP_cons_of_pos (by simpa using holds)]
    omega
  · intro q
    rw [List.countP_cons_of_neg (by simp [pc])]
    rfl

/-- The innermost collection returns before it has upgraded its reference to the queue. -/
theorem returns (inv : s.Conserved) {c : Collection Call} {outer : List (Collection Call)}
    (live : s.owner = .live (c :: outer)) {old : CollectPc Call} (pc : c.pc = old)
    (free : old.holds = false) : (s.collecting outer).Conserved := by
  subst pc
  have shows := inv.shows
  rw [live] at shows
  refine inv.collecting live rfl rfl shows rfl ?_ ?_ fun _ => .inl
  · rw [List.countP_cons_of_neg (by simp [free])]
  · intro q
    have idle : c.pc ≠ .merge q := by
      intro pc
      simp [pc, CollectPc.holds] at free
    rw [List.countP_cons_of_neg (by simpa using idle)]

/-- A step of the innermost collection that keeps its reference, or its lack of one. -/
theorem goesOn (inv : s.Conserved) {c c' : Collection Call} {outer : List (Collection Call)}
    (live : s.owner = .live (c :: outer)) {old : CollectPc Call} (pc : c.pc = old)
    (holds : old.holds = c'.pc.holds) (pushers : s'.pushers = s.pushers)
    (fault : s'.fault = s.fault) (shows : s'.flag.isLive = true)
    (cleared : s'.cleared = s.cleared) (strong : s'.strong = s.strong)
    (located : ∀ q, s'.queue.count q + (if c'.pc = .merge q then 1 else 0) + s'.mergesOf q =
      s.queue.count q + (if old = .merge q then 1 else 0) + s.mergesOf q)
    (safe : ∀ m ∈ s'.merges, m ∈ s.merges ∨ m.onOwner = true ∨ m.cleared = true) :
    (s'.collecting (c' :: outer)).Conserved := by
  subst pc
  refine inv.collecting live pushers fault shows cleared ?_ ?_ safe
  · rw [List.countP_cons, List.countP_cons, holds, strong]
  · intro q
    have change := located q
    simp only [List.countP_cons, decide_eq_true_eq]
    omega

/-- A step of the innermost collection that only looks around. -/
theorem looks (inv : s.Conserved) {c c' : Collection Call} {outer : List (Collection Call)}
    (live : s.owner = .live (c :: outer)) {old : CollectPc Call} (pc : c.pc = old)
    (holds : old.holds = c'.pc.holds) (idle : ∀ q, old ≠ .merge q) (idle' : ∀ q, c'.pc ≠ .merge q) :
    (s.collecting (c' :: outer)).Conserved := by
  have shows := inv.shows
  rw [live] at shows
  refine inv.goesOn live pc holds rfl rfl shows rfl rfl ?_ fun _ => .inl
  intro q
  rw [if_neg (idle q), if_neg (idle' q)]

theorem collectStep (inv : s.Conserved) {c : Collection Call} {outer : List (Collection Call)}
    (live : s.owner = .live (c :: outer)) (panicking : Bool) :
    (s.collectStep c outer panicking).Conserved := by
  have shows := inv.shows
  rw [live] at shows
  unfold MergeQueue.collectStep
  cases pc : c.pc with
  | needsLoad | slowLoad =>
      simp only
      split
      · exact inv.returns live pc rfl
      · exact inv.looks live pc rfl nofun nofun
  | forceLoad =>
      simp only
      split
      · exact inv.looks live pc rfl nofun nofun
      · exact inv.returns live pc rfl
  | upgrade =>
      simp only
      split
      · exact inv.returns live pc rfl
      · refine inv.collecting live rfl rfl shows rfl ?_ ?_ fun _ => .inl
        · change s.strong + 1 + _ = _
          rw [List.countP_cons_of_neg (by simp [pc, CollectPc.holds]),
            List.countP_cons_of_pos (by rfl)]
          omega
        · intro q
          rw [List.countP_cons_of_neg (by simp), List.countP_cons_of_neg (by simp [pc])]
          rfl
  | pop =>
      simp only
      split
      · exact inv.looks live pc rfl nofun nofun
      · rename_i object rest listed
        refine inv.goesOn live pc rfl rfl rfl shows rfl rfl ?_ fun _ => .inl
        intro q
        change rest.count q + _ + s.mergesOf q = _
        rw [listed, List.count_cons]
        simp only [beq_iff_eq, CollectPc.merge.injEq, reduceCtorEq, if_false]
        omega
  | merge object =>
      refine inv.goesOn live pc rfl rfl rfl shows rfl rfl ?_ (mergedSafe (.inl rfl))
      intro q
      rw [mergesOf_merged]
      simp only [CollectPc.merge.injEq, reduceCtorEq, if_false]
      change s.queue.count q + 0 + _ = _
      omega
  | running => exact inv.looks live pc rfl nofun nofun
  | exchange =>
      have still : s.flag.markLive.isLive = true := by
        cases flag : s.flag <;> simp [flag, OwnerPc.Shows, ThreadStateFlag.isLive] at shows <;> rfl
      refine inv.goesOn live pc rfl rfl rfl still rfl rfl ?_ fun _ => .inl
      intro q
      rw [if_neg nofun, if_neg nofun]
      rfl
  | check =>
      simp only
      split
      · exact inv.looks live pc rfl nofun nofun
      · exact inv.looks live pc rfl nofun nofun
  | release => exact inv.leave live pc

/-- A collection that begins holds no reference to the queue. -/
theorem begin (inv : s.Conserved) {collections} (live : s.owner = .live collections)
    (kind : CollectKind) : (s.collecting (kind.start :: collections)).Conserved := by
  have shows := inv.shows
  rw [live] at shows
  refine inv.collecting live rfl rfl shows rfl ?_ ?_ fun _ => .inl
  · rw [List.countP_cons_of_neg (by cases kind <;> simp [CollectKind.start, CollectPc.holds])]
  · intro q
    rw [List.countP_cons_of_neg (by cases kind <;> simp [CollectKind.start])]

/-- Every step but an unwind. -/
theorem next (inv : s.Conserved) {act : QueueAct Call} (returns : act ≠ .unwind)
    (taken : s.next act = some s') : s'.Conserved := by
  cases step_of_next taken with
  | push taken => exact inv.pushStep taken
  | collect live => exact inv.begin live _
  | advance live => exact inv.collectStep live _
  | unwind => exact absurd rfl returns
  | destroy taken => exact inv.destroyStep taken

/-- When all is over nobody refers to the queue and nobody drains it, so it is empty. -/
theorem once (inv : s.Conserved) (dead : s.owner = .dead)
    (settled : ∀ p, s.pushers p = .before ∨ s.pushers p = .returned)
    (returned : s.pushers p = .returned) : s.mergesOf p = 1 := by
  have none : ∀ weight : PushPc Call → Nat, weight .before = 0 → weight .returned = 0 →
      tally weight s.pushers = 0 := fun weight before after =>
    (tally_eq_zero_iff weight _).mpr fun q => by
      rcases settled q with pc | pc <;> simp [pc, before, after]
  have strong := inv.strong
  rw [dead, none PushPc.holds rfl rfl] at strong
  have empty := inv.drained strong (by rw [dead]; rfl) (none PushPc.draining rfl rfl)
  have located := inv.located p
  rw [empty, dead, none (PushPc.carries p) rfl rfl, returned] at located
  simpa [OwnerPc.carries, PushPc.handed] using located

theorem handedOff (inv : s.Conserved) : s.HandedOff where
  once dead settled _ returned := inv.once dead settled returned
  notDestroyed p pushing := by
    have alive := inv.positive pushing rfl
    omega
  asserted := inv.fault
  exclusive := inv.safe

end Conserved

/-- In runs without an unwinding destructor every queued object is handed off. -/
theorem handed_off_once {s : MergeQueue Call}
    (reached : ((system Call).restrict fun _ act => act ≠ .unwind).Reachable s) : s.HandedOff := by
  have conserved : s.Conserved := by
    refine reached.invariant (P := Conserved) ?_ ?_
    · rintro _ rfl
      exact initial_conserved
    · exact fun _ _ _ before taken => before.next taken.1 taken.2
  exact conserved.handedOff

/-- One object is merged by a collection, the next by the push that drops the queue after
    its owner, and the last by a push that finds no queue. -/
theorem handed_off_once_by_each : ∃ s : MergeQueue (Fin 3),
    s.owner = .dead ∧ ∀ p, s.mergesOf p = 1 := by
  have start : ((system (Fin 3)).restrict fun _ act => act ≠ .unwind).Reachable initial := .start rfl
  obtain ⟨s, reached, dead, returned⟩ := start.of_replay
    (pushAll 0 ++ [.collect .collectForce] ++ List.replicate 9 (.advance false) ++
      [.push 1, .push 1, .destroy, .destroy, .destroy] ++ List.replicate 6 (.push 1) ++
      List.replicate 4 (.push 2) ++ [.destroy])
    (fun s => s.owner = .dead ∧ ∀ p, s.pushers p = .returned) (by decide +kernel)
  exact ⟨s, dead, fun p =>
    (handed_off_once reached).once dead (fun q => .inr (returned q)) p (returned p)⟩

end MergeQueue

end BiasedRc
