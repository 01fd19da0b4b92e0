import BiasedRc.MachineEffects

/-! # One merge against the drops of all other handles

A merge takes two steps: one that publishes the merged count and one that clears
the owner. From the first on, the last of the other handles can go, and with it
the header. The second step is then a store to freed memory. This file says that
nothing else can go wrong: a header that is not freed between the two steps of
its merge is never touched after it was freed.
-/

namespace BiasedRc

open Tally Transition.System

variable {pw : PointerWidth} {Tid : Type} [DecidableEq Tid]

namespace Pc

/-- The merging call has yet to publish the merged count. -/
def merging : Pc pw → Bool
  | .slowMerge | .mergeLoad _ | .mergeSharedLoad _ | .mergeExchange _ _ _ => true
  | _ => false

/-- The merging call has published the merged count. -/
def settling : Pc pw → Bool
  | .slowRelease _ | .mergeRelease _ | .destroy | .releaseImplicit | .idle => true
  | _ => false

end Pc

variable [Fintype Tid]

namespace Machine

/-- Thread `merger` is about to merge and all others are idle. No weak handle exists,
    and other threads have at least one strong handle. -/
structure MergeStart (merger : Tid) (m : Machine pw Tid) : Prop where
  begun : ∃ before : Machine pw Tid, before.Agrees ∧
    (before.header.biased.decrementBiased (before.shortId merger) = .slow ∧
        1 ≤ before.strong merger ∧ m = before.goto merger .slowMerge ∨
      ∃ id, before.entry = some id ∧ before.MayMerge merger id ∧
        before.header.biased.ownerId = some id ∧
        m = ({ before with entry := none }).goto merger (.mergeLoad id))
  noWeak : total m.weak = 0
  weakCount : m.weakCount = 1
  allocated : m.freed = false
  others : ∃ t, t ≠ merger ∧ 1 ≤ m.strong t

/-- The other threads drop their handles. -/
def Drops (merger : Tid) : Act Tid → Prop
  | .start t op => t ≠ merger ∧ op = .drop
  | .advance _ _ => True
  | _ => False

instance (merger : Tid) : (act : Act Tid) → Decidable (Drops merger act)
  | .start t op => inferInstanceAs (Decidable (t ≠ merger ∧ op = .drop))
  | .advance _ _ => inferInstanceAs (Decidable True)
  | .merge _ | .die _ | .send _ _ | .sendWeak _ _ => inferInstanceAs (Decidable False)

/-- The header is not deallocated between the two steps of a merge. -/
def Sheltered (m : Machine pw Tid) : Act Tid → Prop
  | .advance t _ => m.pc t = .releaseImplicit → ∀ t', (m.pc t').releasing = false
  | _ => True

instance (m : Machine pw Tid) : (act : Act Tid) → Decidable (m.Sheltered act)
  | .advance t _ => inferInstanceAs
      (Decidable (m.pc t = .releaseImplicit → ∀ t', (m.pc t').releasing = false))
  | .start _ _ | .merge _ | .die _ | .send _ _ | .sendWeak _ _ => inferInstanceAs (Decidable True)

/-- One merge and the drops it races with. -/
def mergeRace (pw : PointerWidth) (Tid : Type) [DecidableEq Tid] [Fintype Tid] (merger : Tid) :
    Transition.System (Machine pw Tid) (Act Tid) :=
  ofNext (MergeStart merger) next

/-- No access to the two header words is to come once the header is freed. -/
def NoUseAfterFree (m : Machine pw Tid) : Prop :=
  m.freed = true → ∀ t, (m.pc t).touchesHeader = false

section Steps

variable {m m' : Machine pw Tid} {t t' : Tid}

/-- A step keeps the merged flag, and it keeps the biased word unless its thread may write it. -/
theorem Inv.advance_kept (inv : m.Inv) {spurious}
    (noCarry : m.pc t = .sharedIncrement → m.header.shared.sharedCount.value ≠ -1)
    (returned : m.advance t spurious = .ok m') :
    (m.header.shared.merged = true → m'.header.shared.merged = true) ∧
      ((m'.header.biased = m.header.biased ∧
        m'.header.shared.merged = m.header.shared.merged) ∨ m.Controls t (m.pc t)) := by
  have of_same : ∀ {mine : Prop}, m'.header.biased = m.header.biased →
      m'.header.shared.merged = m.header.shared.merged →
      (m.header.shared.merged = true → m'.header.shared.merged = true) ∧
      ((m'.header.biased = m.header.biased ∧
        m'.header.shared.merged = m.header.shared.merged) ∨ mine) :=
    fun biased merged => ⟨fun was => merged.trans was, .inl ⟨biased, merged⟩⟩
  have claims := inv.claims t
  have computed := inv.coherent t
  unfold Machine.advance at returned
  cases pc : m.pc t <;> rw [pc] at claims computed <;>
    simp only [pc, Machine.tryUpgrade, Machine.tryDecrement, Machine.tryMerge, bind, Except.bind,
      pure, Except.pure] at returned
  case incrementStore upgrade new =>
    have controls := pc ▸ Inv.controls_of_attempt claims.2
    split at returned <;> cases returned <;> exact ⟨fun was => was, .inr controls⟩
  case decrementStore new =>
    have controls := pc ▸ Inv.controls_of_decrement (t := t) (by rw [claims.2]; rintro ⟨⟩)
    cases returned
    exact ⟨fun was => was, .inr controls⟩
  case slowMerge =>
    have controls := pc ▸ Inv.controls_of_decrement (t := t) (by rw [claims.2]; rintro ⟨⟩)
    cases returned
    exact ⟨fun _ => by simp [hold], .inr controls⟩
  case slowRelease shouldDrop =>
    cases returned
    exact ⟨fun was => was, .inr (claims.2.controls _)⟩
  case mergeExchange biased old new =>
    obtain ⟨_, _, id, owner, may⟩ := claims
    have merged := (SharedWord.mergedWith_eq_ok computed).2.2.1
    (repeat' split at returned) <;> cases returned
    · exact ⟨fun _ => by simp [merged], .inr ⟨id, owner, .inr ⟨rfl, may⟩⟩⟩
    · exact of_same rfl rfl
  case mergeRelease new =>
    obtain ⟨_, id, owner, may⟩ := claims
    (repeat' split at returned) <;> cases returned <;>
      exact ⟨fun was => was, .inr ⟨id, owner, .inr ⟨rfl, may⟩⟩⟩
  case sharedIncrement =>
    split at returned <;> cases returned
    exact of_same rfl (by simp [hold, RawBrcHeader.shared_fetchAddShared (noCarry pc)])
  case upgradeExchange old new =>
    have merged := (SharedWord.upgraded_eq_some computed).2.2.1
    (repeat' split at returned) <;> cases returned
    · rename_i exchanged
      have same : m.header.shared = old := (exchanges_iff.mp exchanged).2
      exact of_same rfl (by simp [answer, hold, merged, same])
    all_goals exact of_same rfl rfl
  case sharedExchange old new =>
    have merged := (SharedWord.decremented_eq_ok computed).2.1
    (repeat' split at returned) <;> cases returned
    case' isTrue.isTrue exchanged _ | isTrue.isFalse.isTrue exchanged _ _ |
        isTrue.isFalse.isFalse exchanged _ _ =>
      have same : m.header.shared = old := (exchanges_iff.mp exchanged).2
      exact of_same rfl (by simp [hold, merged, same])
    exact of_same rfl rfl
  all_goals
    (repeat' split at returned) <;> cases returned <;> exact of_same rfl rfl

/-- Only a step that merges leads to a call that has yet to clear the owner. -/
theorem Inv.unmerged_of_releases (inv : m.Inv) {spurious}
    (returned : m.advance t spurious = .ok m') (releasing : (m'.pc t).releasing = true) :
    m.header.shared.merged = false := by
  have claims := inv.claims t
  unfold Machine.advance at returned
  cases pc : m.pc t <;> rw [pc] at claims <;>
    simp only [pc, Machine.tryUpgrade, Machine.tryDecrement, Machine.tryMerge, bind, Except.bind,
      pure, Except.pure] at returned
  case slowMerge => exact claims.1
  case mergeExchange => exact claims.1
  all_goals
    (repeat' split at returned) <;> cases returned <;> simp [answer, Pc.releasing, pc] at releasing

/-- A call comes to hold the queue entry by setting the queued flag. -/
theorem exchange_of_queues {spurious} (returned : m.advance t spurious = .ok m')
    (before : (m.pc t).token = 0) (after : (m'.pc t).token ≠ 0) :
    ∃ new, m.pc t = .sharedExchange m.header.shared new ∧ m.header.shared.wonQueue new = true := by
  unfold Machine.advance at returned
  cases pc : m.pc t <;> rw [pc] at before <;>
    simp only [pc, tryUpgrade, tryDecrement, tryMerge, bind, Except.bind, pure, Except.pure]
      at returned
  case sharedExchange old new =>
    (repeat' split at returned) <;> cases returned
    · rename_i exchanged won
      have same : m.header.shared = old := (exchanges_iff.mp exchanged).2
      subst same
      exact ⟨new, rfl, won⟩
    all_goals simp [hold, Pc.token] at after
  all_goals
    (repeat' split at returned) <;> cases returned <;> simp [answer, Pc.token, pc] at before after

end Steps

/-- The invariant of the race. -/
structure Merging (merger : Tid) (m : Machine pw Tid) : Prop where
  inv : m.Inv
  calls : ∀ t, (m.pc t).call = none ∨ (m.pc t).call = some .release
  phase : m.header.shared.merged = false ∧ (m.pc merger).merging = true ∧
      m.Controls merger (m.pc merger) ∨
    m.header.shared.merged = true ∧ (m.pc merger).settling = true
  others : ∀ t, t ≠ merger → (m.pc t).token = 0
  freed : m.freed = true → 1 ≤ m.decided ∧ ∀ t, (m.pc t).releasing = false

namespace Merging

variable {merger t : Tid} {m m' : Machine pw Tid}

omit [DecidableEq Tid] in
theorem dead_of_freed (merging : m.Merging merger) (freed : m.freed = true) : m.Dead := by
  by_contra alive
  have decided := (merging.freed freed).1
  have undecided := merging.inv.decided.2 alive
  omega

theorem safe (merging : m.Merging merger) : m.NoUseAfterFree := by
  intro freed t
  have released := (merging.freed freed).2
  have dead := merging.dead_of_freed freed
  have noHandle := (total_eq_zero_iff m.strong).mp dead.2 t
  have held := merging.inv.strongHeld t
  by_cases own : t = merger
  · subst own
    rcases merging.phase with ⟨unmerged, _⟩ | ⟨_, settling⟩
    · rw [dead.1] at unmerged
      cases unmerged
    · have released := released t
      cases pc : m.pc t <;> simp [pc, Pc.settling, Pc.releasing, Pc.touchesHeader] at *
  · have token := merging.others t own
    have released := released t
    have call := merging.calls t
    cases pc : m.pc t <;> rw [pc] at token released call held <;>
      simp [Pc.token, Pc.releasing, Pc.holdsStrong, noHandle] at token released held <;>
      simp [Pc.call, Pc.touchesHeader] at call ⊢ <;> grind

/-- The other handles do not bring the count below zero before the merge is published. -/
theorem not_queued (merging : m.Merging merger) (other : t ≠ merger) {new}
    (pc : m.pc t = .sharedExchange m.header.shared new) :
    m.header.shared.wonQueue new = false := by
  rw [Bool.eq_false_iff]
  intro won
  have computed := merging.inv.coherent t
  have holds := merging.inv.strongAt pc rfl
  rw [pc] at computed
  obtain ⟨unqueued, negative⟩ := (SharedWord.wonQueue_eq_true computed).mp won
  have count := (SharedWord.decremented_eq_ok computed).1
  rcases merging.phase with ⟨unmerged, before, _⟩ | ⟨merged, _⟩
  · have claims := merging.inv.claims merger
    obtain ⟨_, _, _, split⟩ := merging.inv.owned unmerged
    by_cases slow : m.pc merger = .slowMerge
    · -- the owner's own handle is still counted
      rw [slow] at claims
      have one := BiasedWord.decrementBiased_eq_slow claims.2
      have mine := merging.inv.strongHeld merger (by rw [slow]; rfl)
      have both : m.strong t + m.strong merger ≤ total m.strong := add_le_tally id m.strong other
      omega
    · have token : (m.pc merger).token = 1 := by
        cases at_merger : m.pc merger <;>
          simp [at_merger, Pc.merging, Pc.token] at before slow ⊢
      have bound := merging.inv.tokens
      have here := le_tally Pc.token m.pc merger
      rw [unqueued] at bound
      simp only [Bool.toNat_false] at bound
      omega
  · have split := merging.inv.merged merged
    have bound := le_total m.strong t
    omega

theorem phase_advance (merging : m.Merging merger) {spurious}
    (noCarry : m.pc t = .sharedIncrement → m.header.shared.sharedCount.value ≠ -1)
    (returned : m.advance t spurious = .ok m') :
    m'.header.shared.merged = false ∧ (m'.pc merger).merging = true ∧
        m'.Controls merger (m'.pc merger) ∨
      m'.header.shared.merged = true ∧ (m'.pc merger).settling = true := by
  have frame := advance_frame returned
  obtain ⟨monotone, kept⟩ := merging.inv.advance_kept noCarry returned
  by_cases own : t = merger
  · subst own
    unfold Machine.advance at returned
    rcases merging.phase with ⟨unmerged, before, id, owner, mine⟩ | ⟨merged, after⟩
    · cases pc : m.pc t <;> rw [pc] at before mine <;> simp [Pc.merging] at before <;>
        simp only [pc, tryMerge, bind, Except.bind, pure, Except.pure] at returned
      case slowMerge =>
        cases returned
        exact .inr (by simp [hold, Pc.settling])
      case mergeLoad biasedTid =>
        split at returned <;> cases returned
        exact .inl ⟨unmerged, by simp [Pc.merging], id, owner, by simpa [MayMerge, Pc.token] using mine⟩
      case mergeSharedLoad biased =>
        split at returned <;> cases returned
        exact .inl ⟨unmerged, by simp [Pc.merging], id, owner, by simpa [MayMerge, Pc.token] using mine⟩
      case mergeExchange biased old new =>
        have computed := merging.inv.coherent t
        rw [pc] at computed
        (repeat' split at returned) <;> cases returned
        · exact .inr (by simp [Pc.settling, (SharedWord.mergedWith_eq_ok computed).2.2.1])
        · exact .inl ⟨unmerged, by simp [Pc.merging], id, owner,
            by simpa [MayMerge, Pc.token] using mine⟩
    · refine .inr ⟨monotone merged, ?_⟩
      cases pc : m.pc t <;> rw [pc] at after <;> simp [Pc.settling] at after <;>
        simp only [pc] at returned <;> (repeat' split at returned) <;> cases returned <;>
        simp [Pc.settling, pc]
  · rw [frame.pc merger (Ne.symm own)]
    rcases merging.phase with ⟨unmerged, before, controls⟩ | ⟨merged, after⟩
    · rcases kept with ⟨biased, merged⟩ | mine
      · refine .inl ⟨merged.trans unmerged, before, ?_⟩
        obtain ⟨id, owner, mine⟩ := controls
        exact ⟨id, by rw [biased, owner], by simpa only [MayMerge, frame.shortId] using mine⟩
      · exact absurd (merging.inv.controls_unique mine controls) own
    · exact .inr ⟨monotone merged, after⟩

theorem advance (merging : m.Merging merger) {spurious}
    (sheltered : m.pc t = .releaseImplicit → ∀ t', (m.pc t').releasing = false)
    (returned : m.advance t spurious = .ok m') : m'.Merging merger := by
  have frame := advance_frame returned
  have noCarry : m.pc t = .sharedIncrement → m.header.shared.sharedCount.value ≠ -1 := by
    intro pc
    have call := merging.calls t
    simp [pc, Pc.call] at call
  exact {
    inv := merging.inv.advance noCarry returned
    calls := by
      intro t'
      by_cases own : t' = t
      · subst own
        rcases frame.call with idle | same
        · rw [idle]
          exact .inl rfl
        · rw [same]
          exact merging.calls t'
      · rw [frame.pc t' own]
        exact merging.calls t'
    phase := merging.phase_advance noCarry returned
    others := by
      intro t' other
      by_cases own : t' = t
      · subst own
        by_contra queues
        obtain ⟨new, pc, won⟩ := exchange_of_queues returned (merging.others t' other) queues
        rw [merging.not_queued other pc] at won
        cases won
      · rw [frame.pc t' own]
        exact merging.others t' other
    freed := by
      intro freed'
      have earlier : m.freed = true ∨ m.pc t = .releaseImplicit := by
        have call := merging.calls t
        cases advance_effect returned with
        | header same => exact .inl (same.2.2 ▸ freed')
        | release call result => exact .inr call
        | releaseWeak pc result => simp [pc, Pc.call] at call
        | refused dead call result => exact .inl (by simpa [result, answer] using freed')
        | upgraded call result => exact .inl (by simpa [result, answer, hold] using freed')
        | acquireWeak call below result => exact .inl (by simpa [result] using freed')
        | lock call free result => exact .inl (by simpa [result] using freed')
        | look call result => exact .inl (by simpa [result] using freed')
        | judge call result => exact .inl (by simpa [result] using freed')
        | unlock call result => exact .inl (by simpa [result] using freed')
      have before : 1 ≤ m.decided ∧ ∀ t', (m.pc t').releasing = false := by
        rcases earlier with freed | pc
        · exact merging.freed freed
        · have destroyed := merging.inv.implicit t pc
          have settling := merging.inv.settling
          exact ⟨by omega, sheltered pc⟩
      have dead : m.Dead := by
        by_contra alive
        have undecided := merging.inv.decided.2 alive
        omega
      refine ⟨before.1.trans frame.decided, fun t' => ?_⟩
      by_cases own : t' = t
      · subst own
        rw [Bool.eq_false_iff]
        intro releasing
        have unmerged := merging.inv.unmerged_of_releases returned releasing
        rw [dead.1] at unmerged
        cases unmerged
      · rw [frame.pc t' own]
        exact before.2 t' }

theorem next (merging : m.Merging merger) {act : Act Tid}
    (guard : Drops merger act ∧ m.Sheltered act) (taken : m.next act = some m') :
    m'.Merging merger := by
  obtain ⟨drops, sheltered⟩ := guard
  cases step_of_next taken with
  | @start t op _ _ =>
      obtain ⟨other, rfl⟩ := drops
      have noCarry : m.NoCarry (.start t .drop) := trivial
      have inv := merging.inv.next noCarry taken
      have pcs : ∀ t', (m.goto t (Op.entryPoint .drop)).pc t' = .decrementLoad ∨
          (m.goto t (Op.entryPoint .drop)).pc t' = m.pc t' := by
        intro t'
        by_cases own : t' = t
        · rw [own, pc_goto_self]
          exact .inl rfl
        · exact .inr (pc_goto_of_ne own)
      exact {
        inv := inv
        calls := by
          intro t'
          rcases pcs t' with load | same
          · rw [load]
            exact .inr rfl
          · rw [same]
            exact merging.calls t'
        phase := by
          rw [pc_goto_of_ne (Ne.symm other)]
          exact merging.phase
        others := by
          intro t' other'
          rcases pcs t' with load | same
          · rw [load]
            rfl
          · rw [same]
            exact merging.others t' other'
        freed := by
          intro freed
          refine ⟨(merging.freed freed).1, fun t' => ?_⟩
          rcases pcs t' with load | same
          · rw [load]
            rfl
          · rw [same]
            exact (merging.freed freed).2 t' }
  | advance _ returned => exact merging.advance sheltered returned
  | merge | die | send | sendWeak => exact drops.elim

end Merging

/-- One thread is about to merge and all others are idle. -/
theorem merging_goto {merger : Tid} {m : Machine pw Tid} {pc : Pc pw} (idle : ∀ t, m.pc t = .idle)
    (allocated : m.freed = false) (unmerged : m.header.shared.merged = false)
    (inv : (m.goto merger pc).Inv) (merging : pc.merging = true) (call : pc.call = some .release)
    (controls : m.Controls merger pc) : (m.goto merger pc).Merging merger := by
  have others : ∀ t, t ≠ merger → (m.goto merger pc).pc t = .idle :=
    fun t other => (pc_goto_of_ne other).trans (idle t)
  exact {
    inv := inv
    calls := by
      intro t
      by_cases own : t = merger
      · rw [own, pc_goto_self]
        exact .inr call
      · rw [others t own]
        exact .inl rfl
    phase := by
      left
      rw [pc_goto_self]
      exact ⟨unmerged, merging, controls⟩
    others := by
      intro t other
      rw [others t other]
      rfl
    freed := by
      intro freed
      rw [freed_goto, allocated] at freed
      cases freed }

theorem MergeStart.merging {merger : Tid} {m : Machine pw Tid} (start : m.MergeStart merger) :
    m.Merging merger := by
  obtain ⟨before, agrees, begun⟩ := start.begun
  have allocated := start.allocated
  have inv := agrees.inv
  have unmerged : ∀ {id}, before.header.biased.ownerId = some id →
      before.header.shared.merged = false := by
    intro id owner
    rw [Bool.eq_false_iff]
    intro merged
    rw [agrees.released merged] at owner
    cases owner
  rcases begun with ⟨slow, holds, rfl⟩ | ⟨id, entry, may, owner, rfl⟩
  · obtain ⟨same, owned⟩ := BiasedWord.owner_of_decrementBiased (by rw [slow]; nofun)
    obtain ⟨id, owner⟩ := Option.isSome_iff_exists.mp owned
    have slowInv : (before.goto merger .slowMerge).Inv :=
      inv.load (agrees.idle merger) rfl rfl nofun (fun _ => holds) nofun ⟨unmerged owner, slow⟩ trivial
    exact merging_goto agrees.idle allocated (unmerged owner) slowInv rfl rfl
      ⟨id, owner, .inl (same.trans owner)⟩
  · have taken : (({ before with entry := none }).goto merger (.mergeLoad id)).Inv :=
      inv.entry (agrees.idle merger) rfl (by rw [entry]; rfl) rfl nofun rfl rfl may trivial
    exact merging_goto agrees.idle allocated (unmerged owner) taken rfl rfl
      ⟨id, owner, .inr ⟨rfl, may⟩⟩

/-- With the two steps of the merge kept together, nothing touches a freed header. -/
theorem no_use_after_free {merger : Tid} {m : Machine pw Tid}
    (reached : ((mergeRace pw Tid merger).restrict fun m act =>
      Drops merger act ∧ m.Sheltered act).Reachable m) : m.NoUseAfterFree := by
  have merging := reached.invariant (P := Merging merger) (fun _ start => start.merging)
    fun _ _ _ merging taken => merging.next taken.1 taken.2
  exact merging.safe

/-- `owner` owns the object with a biased count of one; each other thread has a handle too. -/
def beforeMerge (owner : Tid) : Machine .w64 Tid :=
  .quiet owner ⟨SharedWord.toRaw ⟨.ofInt 1, false, false⟩, BiasedWord.toRaw ⟨some .first, 1⟩⟩ 1
    (fun _ => 1) fun _ => 0

theorem agrees_beforeMerge : (beforeMerge (0 : Fin 2)).Agrees :=
  .of_unmerged (by decide) (by decide) (by decide) (by decide) (fun _ => rfl) rfl (by decide) rfl rfl

theorem mergeStart_beforeMerge : ((beforeMerge (0 : Fin 2)).goto 0 .slowMerge).MergeStart 0 where
  begun := ⟨beforeMerge 0, agrees_beforeMerge, .inl ⟨by decide, by decide, rfl⟩⟩
  noWeak := by decide
  weakCount := rfl
  allocated := rfl
  others := ⟨1, by decide, by decide⟩

/-- The merge is over before thread 1 drops the last handle. -/
theorem no_use_after_free_at_end : ∃ m : Machine .w64 (Fin 2),
    m.freed = true ∧ m.NoUseAfterFree := by
  obtain ⟨m, reached, ends⟩ := Reachable.of_replay
    (.start mergeStart_beforeMerge :
      ((mergeRace .w64 (Fin 2) 0).restrict fun m act =>
        Drops 0 act ∧ m.Sheltered act).Reachable ((beforeMerge 0).goto 0 .slowMerge))
    [.advance 0 false, .advance 0 false, .start 1 .drop, .advance 1 false, .advance 1 false,
      .advance 1 false, .advance 1 false, .advance 1 false]
    (fun m => m.freed = true) (by decide +kernel)
  exact ⟨m, ends, no_use_after_free reached⟩

/-- Thread 1 drops the last handle while thread 0 has yet to clear the owner. -/
theorem release_touches_freed_header : ¬ ∀ m : Machine .w64 (Fin 2),
    ((mergeRace .w64 (Fin 2) 0).restrict fun _ act => Drops 0 act).Reachable m →
      m.NoUseAfterFree := by
  intro claim
  obtain ⟨m, reached, freed, touches⟩ := Reachable.of_replay
    (.start mergeStart_beforeMerge :
      ((mergeRace .w64 (Fin 2) 0).restrict fun _ act => Drops 0 act).Reachable
        ((beforeMerge 0).goto 0 .slowMerge))
    [.advance 0 false, .start 1 .drop, .advance 1 false, .advance 1 false, .advance 1 false,
      .advance 1 false, .advance 1 false]
    (fun m => m.freed = true ∧ (m.pc 0).touchesHeader = true) (by decide +kernel)
  rw [claim m reached freed 0] at touches
  cases touches

end Machine

end BiasedRc
