import BiasedRc.MachineEffects

/-! # Upgrades against the last drop

Any number of threads upgrade their weak handles while others drop strong ones
and while queue entries are merged. Whether the value is still to be had is
decided in one step for all of them: the step that brings the merged count to
zero. What an upgrade returns tells on which side of that step it fell.
-/

namespace BiasedRc


open Tally Transition.System

variable {pw : PointerWidth} {Tid : Type}

/-- The steps of the race: everything but clones. -/
def Act.races : Act Tid → Bool
  | .start _ op => op != .clone && op != .cloneShared
  | _ => true

variable [DecidableEq Tid] [Fintype Tid]

namespace Machine

/-- Runs without clones from a header that agrees with its handles. -/
def upgradeRace (pw : PointerWidth) (Tid : Type) [DecidableEq Tid] [Fintype Tid] :
    Transition.System (Machine pw Tid) (Act Tid) :=
  (ofNext (fun m => m.Agrees ∧ m.upgrades = []) next).restrict fun _ act => act.races = true

/-- What the upgrades so far returned, in the order of their returns. -/
structure UpgradesSound (m : Machine pw Tid) : Prop where
  some_undecided : ∀ answer ∈ m.upgrades, answer.isSome = true → answer.decided = 0
  /-- The value outlives every handle, the upgraded ones among them. -/
  held : ∀ t, 1 ≤ m.strong t → m.decided = 0 ∧ m.destroyed = 0
  none_decided : ∀ answer ∈ m.upgrades, answer.isSome = false →
    answer.strong = 0 ∧ answer.decided = 1
  none_final : m.upgrades.Pairwise fun first later => first.isSome = false → later.isSome = false

/-- The invariant of the race. -/
structure Racing (m : Machine pw Tid) : Prop where
  inv : m.Inv
  noClone : ∀ t, (m.pc t).call ≠ some .clone
  sound : m.UpgradesSound
  closed : ∀ answer ∈ m.upgrades, answer.isSome = false → m.decided = 1

omit [DecidableEq Tid] in
theorem Inv.undecided {m : Machine pw Tid} (inv : m.Inv) {t} (holds : 1 ≤ m.strong t) :
    m.decided = 0 ∧ m.destroyed = 0 := by
  have undecided := inv.decided.2 (Inv.not_dead_of_strong holds)
  have settling := inv.settling
  exact ⟨undecided, by omega⟩

omit [DecidableEq Tid] in
theorem Inv.decided_le {m : Machine pw Tid} (inv : m.Inv) : m.decided ≤ 1 := by
  by_cases dead : m.Dead
  · exact (inv.decided.1 dead).le
  · rw [inv.decided.2 dead]
    exact Nat.zero_le 1

namespace Racing

variable {m m' : Machine pw Tid} {t : Tid}

omit [DecidableEq Tid] in
/-- A step at which no upgrade returns. -/
theorem quiet (racing : m.Racing) (inv : m'.Inv) (noClone : ∀ t, (m'.pc t).call ≠ some .clone)
    (upgrades : m'.upgrades = m.upgrades) (decided : m.decided ≤ m'.decided) : m'.Racing where
  inv := inv
  noClone := noClone
  sound := by
    constructor
    · rw [upgrades]
      exact racing.sound.some_undecided
    · exact fun _ => inv.undecided
    · rw [upgrades]
      exact racing.sound.none_decided
    · rw [upgrades]
      exact racing.sound.none_final
  closed := by
    rw [upgrades]
    intro answer returned isNone
    have before := racing.closed answer returned isNone
    have bound := inv.decided_le
    omega

omit [DecidableEq Tid] in
/-- An upgrade returns. -/
theorem answered (racing : m.Racing) (inv : m'.Inv) (noClone : ∀ t, (m'.pc t).call ≠ some .clone)
    {new : Answer} (upgrades : m'.upgrades = m.upgrades ++ [new]) (decided : m.decided ≤ m'.decided)
    (isSome : new.isSome = true → new.decided = 0 ∧ m.decided = 0)
    (isNone : new.isSome = false → new.strong = 0 ∧ new.decided = 1 ∧ m'.decided = 1) :
    m'.Racing where
  inv := inv
  noClone := noClone
  sound := by
    constructor
    · intro answer returned some
      rw [upgrades, List.mem_append, List.mem_singleton] at returned
      rcases returned with before | rfl
      · exact racing.sound.some_undecided answer before some
      · exact (isSome some).1
    · exact fun _ => inv.undecided
    · intro answer returned none
      rw [upgrades, List.mem_append, List.mem_singleton] at returned
      rcases returned with before | rfl
      · exact racing.sound.none_decided answer before none
      · exact ⟨(isNone none).1, (isNone none).2.1⟩
    · rw [upgrades, List.pairwise_append]
      refine ⟨racing.sound.none_final, List.pairwise_singleton .., ?_⟩
      intro first before later last none
      rw [List.mem_singleton] at last
      subst last
      by_contra some
      have undecided := (isSome (by simpa using some)).2
      have closed := racing.closed first before none
      omega
  closed := by
    intro answer returned none
    rw [upgrades, List.mem_append, List.mem_singleton] at returned
    rcases returned with before | rfl
    · have closed := racing.closed answer before none
      have bound := inv.decided_le
      omega
    · exact (isNone none).2.2

theorem advance (racing : m.Racing) {spurious} (returned : m.advance t spurious = .ok m') :
    m'.Racing := by
  have noCarry : m.pc t = .sharedIncrement → m.header.shared.sharedCount.value ≠ -1 := by
    intro pc
    exact absurd (by rw [pc]; rfl) (racing.noClone t)
  have inv := racing.inv.advance noCarry returned
  have frame := advance_frame returned
  have noClone : ∀ t', (m'.pc t').call ≠ some .clone := by
    intro t'
    by_cases same : t' = t
    · subst same
      rcases frame.call with idle | kept
      · rw [idle]
        rintro ⟨⟩
      · rw [kept]
        exact racing.noClone t'
    · rw [frame.pc t' same]
      exact racing.noClone t'
  cases advance_effect returned with
  | refused dead call result =>
      have isDead := racing.inv.dead_iff.mpr dead
      have decided := racing.inv.decided.1 isDead
      subst result
      exact racing.answered inv noClone rfl frame.decided (by rintro ⟨⟩)
        fun _ => ⟨isDead.2, decided, decided⟩
  | upgraded call result =>
      have holds : 1 ≤ m'.strong t := by
        rw [result]
        simp [answer, hold]
      have undecided := (inv.undecided holds).1
      subst result
      exact racing.answered inv noClone rfl frame.decided (fun _ => ⟨undecided, undecided⟩)
        (by rintro ⟨⟩)
  | header same upgrades => exact racing.quiet inv noClone upgrades frame.decided
  | release call result => exact racing.quiet inv noClone (by rw [result]; rfl) frame.decided
  | acquireWeak call below result =>
      exact racing.quiet inv noClone (by rw [result]; rfl) frame.decided
  | releaseWeak call result => exact racing.quiet inv noClone (by rw [result]; rfl) frame.decided
  | lock call free result => exact racing.quiet inv noClone (by rw [result]; rfl) frame.decided
  | look call result => exact racing.quiet inv noClone (by rw [result]; rfl) frame.decided
  | judge call result => exact racing.quiet inv noClone (by rw [result]; rfl) frame.decided
  | unlock call result => exact racing.quiet inv noClone (by rw [result]; rfl) frame.decided

/-- A thread begins a call that is not a clone. -/
theorem begins (racing : m.Racing) (inv : m'.Inv) {pc : Pc pw} (call : pc.call ≠ some .clone)
    (pcs : m'.pc = Function.update m.pc t pc) (upgrades : m'.upgrades = m.upgrades)
    (decided : m'.decided = m.decided) : m'.Racing := by
  apply racing.quiet inv ?_ upgrades decided.ge
  intro t'
  rw [pcs]
  by_cases same : t' = t
  · subst same
    rwa [Function.update_self]
  · rw [Function.update_of_ne same]
    exact racing.noClone t'

theorem next (racing : m.Racing) {act : Act Tid} (races : act.races = true)
    (taken : m.next act = some m') : m'.Racing := by
  have noCarry : m.NoCarry act := by
    cases act with
    | advance t spurious => exact fun pc => absurd (by rw [pc]; rfl) (racing.noClone t)
    | _ => trivial
  have inv := racing.inv.next noCarry taken
  cases step_of_next taken with
  | @start t op _ _ =>
      have call : (op.entryPoint : Pc pw).call ≠ some .clone := by
        cases op <;> simp_all [Act.races, Op.entryPoint, Pc.call]
      exact racing.begins inv call rfl rfl rfl
  | advance _ returned => exact racing.advance returned
  | merge => exact racing.begins inv (by simp [Pc.call]) rfl rfl rfl
  | die | send | sendWeak => exact racing.quiet inv racing.noClone rfl (Nat.le_refl _)

end Racing

omit [DecidableEq Tid] in
theorem Agrees.racing {m : Machine pw Tid} (agrees : m.Agrees) (upgrades : m.upgrades = []) :
    m.Racing where
  inv := agrees.inv
  noClone t := by
    rw [agrees.idle t]
    nofun
  sound := by
    constructor
    · simp [upgrades]
    · exact fun _ => agrees.inv.undecided
    · simp [upgrades]
    · simp [upgrades]
  closed := by simp [upgrades]

/-- Every upgrade falls on one side of the decision to destroy the value. -/
theorem upgrades_sound {m : Machine pw Tid} (reached : (upgradeRace pw Tid).Reachable m) :
    m.UpgradesSound := by
  have racing := reached.invariant (P := Racing) (fun _ start => start.1.racing start.2)
    fun _ _ _ racing taken => racing.next taken.1 taken.2
  exact racing.sound

/-- `owner` owns the object and `other` has two weak handles to it. -/
def beforeRace (owner other : Tid) : Machine .w64 Tid :=
  .quiet owner (.init (some .first)) 3 (fun t => if t = owner then 1 else 0)
    fun t => if t = other then 2 else 0

theorem agrees_beforeRace : (beforeRace (0 : Fin 2) 1).Agrees :=
  .of_unmerged (by decide) (by decide) (by decide) (by decide) (fun _ => rfl) rfl (by decide) rfl rfl

/-- One upgrade wins against the owner's drop, one comes after the last drop. -/
theorem upgrades_sound_after_race : ∃ m : Machine .w64 (Fin 2),
    m.upgrades.map (fun answer => answer.isSome) = [true, false] ∧ m.UpgradesSound := by
  obtain ⟨m, reached, ends⟩ := Reachable.of_replay
    (.start ⟨agrees_beforeRace, rfl⟩ : (upgradeRace .w64 (Fin 2)).Reachable (beforeRace 0 1))
    [.start 1 .upgrade, .start 0 .drop, .advance 0 false, .advance 1 false, .advance 1 false,
      .advance 1 false, .advance 0 false, .advance 0 false, .start 1 .drop, .advance 1 false,
      .advance 1 false, .advance 1 false, .advance 1 false, .advance 1 false, .start 1 .upgrade,
      .advance 1 false, .advance 1 false]
    (fun m => m.upgrades.map (fun answer => answer.isSome) = [true, false]) (by decide +kernel)
  exact ⟨m, ends, upgrades_sound reached⟩

end Machine

end BiasedRc
