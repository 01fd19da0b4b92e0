import BiasedRc.Counts
import BiasedRc.Machine

/-! # What holds between any two accesses

While a header is unmerged the biased word belongs to one thread: to its owner
as long as that thread lives, and to the one holder of the queue entry
afterwards. A call that has loaded the biased word relies on nobody else writing
it, and a call that has merged the counts relies on being the one to clear the
owner. `Pc.Claims` is what a call relies on at each access, and `controls_unique`
is why no step of another thread breaks it.
-/

namespace BiasedRc

open Tally

variable {pw : PointerWidth} {Tid : Type}

namespace Machine

/-- Thread `t` is the owner, and its local state has not been destroyed. -/
def Owns (m : Machine pw Tid) (t : Tid) : Prop :=
  ∃ id, m.header.biased.ownerId = some id ∧ m.shortId t = some id

/-- Thread `t`, with its call at `pc`, is the only one that may write the biased word. -/
def Controls (m : Machine pw Tid) (t : Tid) (pc : Pc pw) : Prop :=
  ∃ id, m.header.biased.ownerId = some id ∧
    (m.shortId t = some id ∨ pc.token = 1 ∧ m.MayMerge t id)

theorem Owns.controls {m : Machine pw Tid} {t} (owns : m.Owns t) (pc : Pc pw) : m.Controls t pc := by
  obtain ⟨id, owner, mine⟩ := owns
  exact ⟨id, owner, .inl mine⟩

end Machine

namespace Pc

/-- What a call that was loaded from the header up to `pc` relies on. -/
def Claims (m : Machine pw Tid) (t : Tid) : Pc pw → Prop
  | .incrementStore _ new => m.header.shared.merged = false ∧
      m.header.biased.attemptIncrement (m.shortId t) = some new
  | .decrementStore new => m.header.shared.merged = false ∧
      m.header.biased.decrementBiased (m.shortId t) = .store new
  | .slowMerge => m.header.shared.merged = false ∧
      m.header.biased.decrementBiased (m.shortId t) = .slow
  | .slowRelease _ => m.header.shared.merged = true ∧ m.Owns t
  | .mergeLoad id => m.MayMerge t id
  | .mergeSharedLoad biased | .mergeExchange biased _ _ => m.header.shared.merged = false ∧
      m.header.biased.biasedCount = biased ∧
      ∃ id, m.header.biased.ownerId = some id ∧ m.MayMerge t id
  | .mergeRelease _ => m.header.shared.merged = true ∧
      ∃ id, m.header.biased.ownerId = some id ∧ m.MayMerge t id
  | .uniqueLock | .uniqueSharedLoad => m.header.shared.merged = true ∨ m.Owns t
  | .uniqueBiasedLoad shared strong _ =>
      (shared.merged = true ∧ (shared.sharedCount.value = 1 → strong = 1)) ∨
      (shared.merged = false ∧ m.Owns t ∧
        (m.header.biased.biasedCount.toNat + shared.sharedCount.value = 1 → strong = 1))
  | .uniqueUnlock result strong _ => result = true → strong = 1
  | _ => True

/-- How the word that an exchange is to store was computed. -/
def Coherent : Pc pw → Prop
  | .upgradeExchange old new => old.upgraded = .ok (some new)
  | .sharedExchange old new => old.decremented = .ok new
  | .mergeExchange biased old new => old.mergedWith biased = .ok new
  | _ => True

/-- The call has decided to destroy the value and has not done so. -/
def owes : Pc pw → Nat
  | .slowRelease shouldDrop => shouldDrop.toNat
  | .mergeRelease new => if new.sharedCount.value = 0 then 1 else 0
  | .destroy => 1
  | _ => 0

/-- A call that neither holds the queue entry nor has the value or the owner to clear away. -/
def plain : Pc pw → Bool
  | .slowRelease _ | .queueLoad | .queuePush _ | .mergeLoad _ | .mergeSharedLoad _
  | .mergeExchange _ _ _ | .mergeRelease _ | .destroy => false
  | _ => true

theorem of_plain {pc : Pc pw} (plain : pc.plain = true) :
    pc.releasing = false ∧ pc.token = 0 ∧ pc.owes = 0 := by
  cases pc <;> simp [Pc.plain, releasing, token, owes] at plain ⊢

/-- A step of another thread keeps what a call relies on. -/
theorem Claims.frame {m m' : Machine pw Tid} {t : Tid} {pc : Pc pw} (claims : pc.Claims m t)
    (ids : m'.shortId = m.shortId)
    (monotone : m.header.shared.merged = true → m'.header.shared.merged = true)
    (kept : (m'.header.biased = m.header.biased ∧
      m'.header.shared.merged = m.header.shared.merged) ∨ ¬ m.Controls t pc) :
    pc.Claims m' t := by
  have mayMerge : ∀ id, m'.MayMerge t id ↔ m.MayMerge t id := by simp [Machine.MayMerge, ids]
  rcases kept with ⟨biased, merged⟩ | other
  · have owns : m'.Owns t ↔ m.Owns t := by simp [Machine.Owns, ids, biased]
    cases pc <;> simp only [Claims, ids, biased, merged, mayMerge, owns] at claims ⊢ <;> exact claims
  · have notOwner : ¬ m.Owns t := fun owns => other (owns.controls pc)
    have notTaken : ∀ {id}, m.header.biased.ownerId = some id → ¬ m.shortId t = some id :=
      fun owner mine => other ⟨_, owner, .inl mine⟩
    have foreign (decremented : m.header.biased.decrementBiased (m.shortId t) ≠ .notOwner) :
        False := by
      obtain ⟨same, owned⟩ := BiasedWord.owner_of_decrementBiased decremented
      obtain ⟨id, owner⟩ := Option.isSome_iff_exists.mp owned
      exact notTaken owner (same.trans owner)
    cases pc with
    | incrementStore upgrade new =>
        obtain ⟨same, owned, _⟩ := BiasedWord.attemptIncrement_eq_some claims.2
        obtain ⟨id, owner⟩ := Option.isSome_iff_exists.mp owned
        exact absurd (same.trans owner) (notTaken owner)
    | decrementStore new => exact (foreign (by rw [claims.2]; nofun)).elim
    | slowMerge => exact (foreign (by rw [claims.2]; nofun)).elim
    | slowRelease shouldDrop => exact absurd claims.2 notOwner
    | mergeLoad id => exact (mayMerge id).mpr claims
    | mergeSharedLoad biased =>
        obtain ⟨_, _, id, owner, may⟩ := claims
        exact absurd ⟨id, owner, .inr ⟨rfl, may⟩⟩ other
    | mergeExchange biased old new =>
        obtain ⟨_, _, id, owner, may⟩ := claims
        exact absurd ⟨id, owner, .inr ⟨rfl, may⟩⟩ other
    | mergeRelease new =>
        obtain ⟨_, id, owner, may⟩ := claims
        exact absurd ⟨id, owner, .inr ⟨rfl, may⟩⟩ other
    | uniqueLock => exact .inl (monotone (claims.resolve_right notOwner))
    | uniqueSharedLoad => exact .inl (monotone (claims.resolve_right notOwner))
    | uniqueBiasedLoad shared strong weak =>
        exact .inl (claims.resolve_right fun ⟨_, owns, _⟩ => notOwner owns)
    | _ => exact claims

end Pc

variable [Fintype Tid] [DecidableEq Tid]

namespace Machine

/-- No strong handle is left and the counts are merged: the value is to be destroyed. -/
def Dead (m : Machine pw Tid) : Prop := m.header.shared.merged = true ∧ total m.strong = 0

/-- The counts agree with the live strong handles. -/
structure Counted (m : Machine pw Tid) : Prop where
  owned : m.header.shared.merged = false → ∃ id, m.header.biased.ownerId = some id ∧
    1 ≤ m.header.biased.biasedCount.toNat ∧
    (m.header.biased.biasedCount.toNat : Int) + m.header.shared.sharedCount.value = total m.strong
  merged : m.header.shared.merged = true → m.header.shared.sharedCount.value = total m.strong

omit [DecidableEq Tid] in
theorem counted_iff {m : Machine pw Tid} : m.Counted ↔ m.header.Counts (total m.strong) :=
  ⟨fun counted => ⟨counted.owned, counted.merged⟩, fun counts => ⟨counts.owned, counts.merged⟩⟩

/-- The invariant of the interleaving. -/
structure Inv (m : Machine pw Tid) : Prop extends m.Counted where
  distinct : ∀ {t t' id}, m.shortId t = some id → m.shortId t' = some id → t = t'
  released : m.header.shared.merged = true →
    m.header.biased.ownerId = none ∨ ∃ t, (m.pc t).releasing = true
  tokens : m.entry.isSome.toNat + tally Pc.token m.pc ≤ m.header.shared.queued.toNat
  decided : (m.Dead → m.decided = 1) ∧ (¬ m.Dead → m.decided = 0)
  settling : tally Pc.owes m.pc + m.destroyed = m.decided
  implicit : ∀ t, m.pc t = .releaseImplicit → 1 ≤ m.destroyed
  strongHeld : ∀ t, (m.pc t).holdsStrong = true → 1 ≤ m.strong t
  weakHeld : ∀ t, (m.pc t).holdsWeak = true → 1 ≤ m.weak t
  claims : ∀ t, (m.pc t).Claims m t
  coherent : ∀ t, (m.pc t).Coherent

/-- What there is to know of a step of thread `t`: its effect on the header, on the
    accounting and on its own call. -/
structure Moves (m : Machine pw Tid) (t : Tid) (m' : Machine pw Tid) : Prop where
  ids : m'.shortId = m.shortId
  pcs : ∀ t', t' ≠ t → m'.pc t' = m.pc t'
  handles : ∀ t', t' ≠ t → m'.strong t' = m.strong t' ∧ m'.weak t' = m.weak t'
  monotone : m.header.shared.merged = true → m'.header.shared.merged = true
  frame : (m'.header.biased = m.header.biased ∧
    m'.header.shared.merged = m.header.shared.merged) ∨ m.Controls t (m.pc t)
  counted : m'.Counted
  released : m'.header.shared.merged = true → m'.header.biased.ownerId = none ∨
    (m'.pc t).releasing = true ∨ (m.header.shared.merged = true ∧
      m'.header.biased = m.header.biased ∧ (m.pc t).releasing = false)
  tokens : m'.entry.isSome.toNat + (m'.pc t).token + m.header.shared.queued.toNat ≤
    m.entry.isSome.toNat + (m.pc t).token + m'.header.shared.queued.toNat
  decided : (m'.Dead → m'.decided = 1) ∧ (¬ m'.Dead → m'.decided = 0)
  settling : (m'.pc t).owes + m'.destroyed + m.decided =
    (m.pc t).owes + m.destroyed + m'.decided
  grows : m.destroyed ≤ m'.destroyed
  implicit : m'.pc t = .releaseImplicit → 1 ≤ m'.destroyed
  strongHeld : (m'.pc t).holdsStrong = true → 1 ≤ m'.strong t
  weakHeld : (m'.pc t).holdsWeak = true → 1 ≤ m'.weak t
  claims : (m'.pc t).Claims m' t
  coherent : (m'.pc t).Coherent

namespace Inv

variable {m m' : Machine pw Tid} {t t' : Tid}

omit [DecidableEq Tid] in
theorem counts (inv : m.Inv) : m.header.Counts (total m.strong) := counted_iff.mp inv.toCounted

section

omit [DecidableEq Tid]

theorem strongAt (inv : m.Inv) {old : Pc pw} (pc : m.pc t = old) (holds : old.holdsStrong = true) :
    1 ≤ m.strong t := inv.strongHeld t (pc ▸ holds)

theorem weakAt (inv : m.Inv) {old : Pc pw} (pc : m.pc t = old) (holds : old.holdsWeak = true) :
    1 ≤ m.weak t := inv.weakHeld t (pc ▸ holds)

theorem claimsAt (inv : m.Inv) {old : Pc pw} (pc : m.pc t = old) : old.Claims m t :=
  pc ▸ inv.claims t

theorem coherentAt (inv : m.Inv) {old : Pc pw} (pc : m.pc t = old) : old.Coherent :=
  pc ▸ inv.coherent t

end

theorem controls_unique (inv : m.Inv) (mine : m.Controls t (m.pc t))
    (other : m.Controls t' (m.pc t')) : t = t' := by
  obtain ⟨id, owner, mine⟩ := mine
  obtain ⟨id', owner', other⟩ := other
  rw [owner, Option.some.injEq] at owner'
  subst owner'
  rcases mine with mine | ⟨token, mine | gone⟩
  · rcases other with other | ⟨_, other | gone'⟩
    · exact inv.distinct mine other
    · exact inv.distinct mine other
    · exact absurd mine (gone' t)
  · rcases other with other | ⟨_, other | gone'⟩
    · exact inv.distinct mine other
    · exact inv.distinct mine other
    · exact absurd mine (gone' t)
  · rcases other with other | ⟨token', _⟩
    · exact absurd other (gone t')
    · by_contra different
      have both := add_le_tally Pc.token m.pc different
      have bound := inv.tokens
      have flag := Bool.toNat_le m.header.shared.queued
      omega

omit [DecidableEq Tid] in
theorem controls_of_releasing (inv : m.Inv) (releasing : (m.pc t).releasing = true) :
    m.header.shared.merged = true ∧ m.Controls t (m.pc t) := by
  have claims := inv.claims t
  cases pc : m.pc t with
  | slowRelease shouldDrop =>
      rw [pc] at claims
      exact ⟨claims.1, claims.2.controls _⟩
  | mergeRelease new =>
      rw [pc] at claims
      obtain ⟨merged, id, owner, may⟩ := claims
      exact ⟨merged, id, owner, .inr ⟨rfl, may⟩⟩
  | _ => simp [pc, Pc.releasing] at releasing

/-- Whoever may write the biased word finds the header unmerged, unless it has merged it. -/
theorem unmerged_of_controls (inv : m.Inv) {old : Pc pw} (pc : m.pc t = old)
    (controls : m.Controls t (m.pc t)) (before : old.releasing = false) :
    m.header.shared.merged = false := by
  subst pc
  rw [Bool.eq_false_iff]
  intro merged
  rcases inv.released merged with unowned | ⟨t', releasing⟩
  · obtain ⟨id, owner, _⟩ := controls
    rw [unowned] at owner
    cases owner
  · have same := inv.controls_unique controls (inv.controls_of_releasing releasing).2
    rw [same, releasing] at before
    cases before

/-- A step of thread `t` keeps the invariant if these facts about it hold. -/
theorem moves (inv : m.Inv) (moves : m.Moves t m') : m'.Inv where
  toCounted := moves.counted
  distinct := moves.ids ▸ inv.distinct
  released := by
    intro merged'
    rcases moves.released merged' with unowned | releasing | ⟨merged, same, before⟩
    · exact .inl unowned
    · exact .inr ⟨t, releasing⟩
    · rw [same]
      rcases inv.released merged with unowned | ⟨t', releasing⟩
      · exact .inl unowned
      · have other : t' ≠ t := by
          rintro rfl
          rw [before] at releasing
          cases releasing
        exact .inr ⟨t', by rwa [moves.pcs t' other]⟩
  tokens := by
    have moved := tally_of_others Pc.token moves.pcs
    have bound := inv.tokens
    have change := moves.tokens
    omega
  decided := moves.decided
  settling := by
    have moved := tally_of_others Pc.owes moves.pcs
    have bound := inv.settling
    have change := moves.settling
    omega
  implicit := by
    intro t' pc
    by_cases same : t' = t
    · subst same
      exact moves.implicit pc
    · rw [moves.pcs t' same] at pc
      exact (inv.implicit t' pc).trans moves.grows
  strongHeld := by
    intro t' held
    by_cases same : t' = t
    · subst same
      exact moves.strongHeld held
    · rw [moves.pcs t' same] at held
      rw [(moves.handles t' same).1]
      exact inv.strongHeld t' held
  weakHeld := by
    intro t' held
    by_cases same : t' = t
    · subst same
      exact moves.weakHeld held
    · rw [moves.pcs t' same] at held
      rw [(moves.handles t' same).2]
      exact inv.weakHeld t' held
  claims := by
    intro t'
    by_cases same : t' = t
    · subst same
      exact moves.claims
    · rw [moves.pcs t' same]
      apply (inv.claims t').frame moves.ids moves.monotone
      rcases moves.frame with kept | controls
      · exact .inl kept
      · exact .inr fun other => same (inv.controls_unique other controls)
  coherent := by
    intro t'
    by_cases same : t' = t
    · subst same
      exact moves.coherent
    · rw [moves.pcs t' same]
      exact inv.coherent t'

/-- The step changes no count of strong handles. -/
theorem elsewhere (inv : m.Inv) {old p : Pc pw} {weakCount weak freed upgrades}
    (pc : m.pc t = old) (before : old.releasing = false) (token : p.token = old.token)
    (owes : p.owes = old.owes) (others : ∀ t', t' ≠ t → weak t' = m.weak t')
    (implicit : p ≠ .releaseImplicit) (strongHeld : p.holdsStrong = true → 1 ≤ m.strong t)
    (weakHeld : p.holdsWeak = true → 1 ≤ weak t) (claims : p.Claims m t) (coherent : p.Coherent) :
    Inv { m with
      pc := Function.update m.pc t p, weakCount := weakCount, weak := weak, freed := freed
      upgrades := upgrades } := by
  subst pc
  apply inv.moves (t := t)
  exact {
    ids := rfl
    pcs := fun t' other => Function.update_of_ne other ..
    handles := fun t' other => ⟨rfl, others t' other⟩
    monotone := id
    frame := .inl ⟨rfl, rfl⟩
    counted := ⟨inv.owned, inv.merged⟩
    released := fun merged => .inr (.inr ⟨merged, rfl, before⟩)
    tokens := by simp only [Function.update_self, token]; omega
    decided := inv.decided
    settling := by simp only [Function.update_self, owes]
    grows := Nat.le_refl _
    implicit := by simp only [Function.update_self]; exact fun same => absurd same implicit
    strongHeld := by simpa only [Function.update_self] using strongHeld
    weakHeld := by simpa only [Function.update_self] using weakHeld
    claims := by
      simp only [Function.update_self]
      exact claims.frame rfl id (.inl ⟨rfl, rfl⟩)
    coherent := by simpa only [Function.update_self] using coherent }

/-- A load: only the caller's own program counter changes. -/
theorem goto (inv : m.Inv) {old p : Pc pw} (pc : m.pc t = old) (before : old.releasing = false)
    (token : p.token = old.token) (owes : p.owes = old.owes)
    (implicit : p ≠ .releaseImplicit) (strongHeld : p.holdsStrong = true → 1 ≤ m.strong t)
    (weakHeld : p.holdsWeak = true → 1 ≤ m.weak t) (claims : p.Claims m t) (coherent : p.Coherent) :
    (m.goto t p).Inv :=
  inv.elsewhere pc before token owes (fun _ _ => rfl) implicit strongHeld weakHeld claims coherent

/-- A load of a call that is plain before and after it. -/
theorem load (inv : m.Inv) {old p : Pc pw} (pc : m.pc t = old) (before : old.plain = true)
    (after : p.plain = true) (implicit : p ≠ .releaseImplicit)
    (strongHeld : p.holdsStrong = true → 1 ≤ m.strong t)
    (weakHeld : p.holdsWeak = true → 1 ≤ m.weak t) (claims : p.Claims m t)
    (coherent : p.Coherent) :
    (m.goto t p).Inv := by
  obtain ⟨releasing, token, owes⟩ := Pc.of_plain before
  obtain ⟨_, token', owes'⟩ := Pc.of_plain after
  exact inv.goto pc releasing (token'.trans token.symm) (owes'.trans owes.symm) implicit strongHeld
    weakHeld claims coherent

/-- A call returns, with or without a change to the weak count. -/
theorem returns (inv : m.Inv) {old : Pc pw} {weakCount weak freed upgrades} (pc : m.pc t = old)
    (before : old.plain = true) (others : ∀ t', t' ≠ t → weak t' = m.weak t') :
    Inv { m with
      pc := Function.update m.pc t .idle, weakCount := weakCount, weak := weak, freed := freed
      upgrades := upgrades } := by
  obtain ⟨releasing, token, owes⟩ := Pc.of_plain before
  exact inv.elsewhere pc releasing token.symm owes.symm others nofun nofun nofun trivial trivial

omit [DecidableEq Tid] in
theorem dead_iff (inv : m.Inv) :
    m.Dead ↔ m.header.shared.merged = true ∧ m.header.shared.sharedCount.value = 0 := by
  rw [Dead, ← inv.counts.isDead_iff, SharedWord.isDead_eq_true]

/-- One more strong handle for the thread whose call returns with this step. -/
theorem gains (inv : m.Inv) {old : Pc pw} {header upgrades} (alive : ¬ m.Dead) (pc : m.pc t = old)
    (before : old.plain = true)
    (counted : Counted { m with header := header, strong := raise m.strong t })
    (merged : header.shared.merged = m.header.shared.merged)
    (queued : header.shared.queued = m.header.shared.queued)
    (frame : header.biased = m.header.biased ∨
      m.Controls t (m.pc t) ∧ m.header.shared.merged = false) :
    Inv { m with
      header := header, strong := raise m.strong t, pc := Function.update m.pc t .idle
      upgrades := upgrades } := by
  subst pc
  obtain ⟨releasing, _, owes⟩ := Pc.of_plain before
  apply inv.moves (t := t)
  exact {
    ids := rfl
    pcs := fun t' other => Function.update_of_ne other ..
    handles := fun t' other => ⟨raise_of_ne _ other, rfl⟩
    monotone := fun was => merged.trans was
    frame := by
      rcases frame with same | ⟨controls, _⟩
      · exact .inl ⟨same, merged⟩
      · exact .inr controls
    counted := ⟨counted.owned, counted.merged⟩
    released := by
      intro isMerged
      rcases frame with same | ⟨_, unmerged⟩
      · exact .inr (.inr ⟨merged ▸ isMerged, same, releasing⟩)
      · simp [merged, unmerged] at isMerged
    tokens := by simp only [Function.update_self, queued, Pc.token]; omega
    decided := by
      refine ⟨fun dead => ?_, fun _ => inv.decided.2 alive⟩
      have zero := dead.2
      simp only [total_raise] at zero
      omega
    settling := by
      rw [owes]
      simp [Pc.owes]
    grows := Nat.le_refl _
    implicit := by simp
    strongHeld := by simp [Pc.holdsStrong]
    weakHeld := by simp [Pc.holdsWeak]
    claims := by simp [Pc.Claims]
    coherent := by simp [Pc.Coherent] }

omit [Fintype Tid] [DecidableEq Tid] in
/-- The owner, or the holder of the queue entry, is about to write the biased word. -/
theorem controls_of_attempt {new}
    (taken : m.header.biased.attemptIncrement (m.shortId t) = some new) :
    m.Controls t (m.pc t) := by
  obtain ⟨same, owned, _⟩ := BiasedWord.attemptIncrement_eq_some taken
  obtain ⟨id, owner⟩ := Option.isSome_iff_exists.mp owned
  exact ⟨id, owner, .inl (same.trans owner)⟩

omit [Fintype Tid] [DecidableEq Tid] in
theorem controls_of_decrement
    (owner : m.header.biased.decrementBiased (m.shortId t) ≠ .notOwner) : m.Controls t (m.pc t) := by
  obtain ⟨same, owned⟩ := BiasedWord.owner_of_decrementBiased owner
  obtain ⟨id, owner⟩ := Option.isSome_iff_exists.mp owned
  exact ⟨id, owner, .inl (same.trans owner)⟩

theorem incrementStore (inv : m.Inv) {upgrade new upgrades} (pc : m.pc t = .incrementStore upgrade new) :
    Inv { m with
      header := m.header.storeBiased new, strong := raise m.strong t
      pc := Function.update m.pc t .idle, upgrades := upgrades } := by
  have claims := inv.claimsAt pc
  obtain ⟨unmerged, taken⟩ := claims
  refine inv.gains (by simp [Dead, unmerged]) pc rfl ?_ rfl rfl
    (.inr ⟨controls_of_attempt taken, unmerged⟩)
  rw [counted_iff, total_raise]
  exact inv.counts.incrementBiased unmerged taken

/-- One more reference through the shared word. -/
theorem gainsShared (inv : m.Inv) {old : Pc pw} {header upgrades} (alive : ¬ m.Dead)
    (pc : m.pc t = old) (before : old.plain = true)
    (count : header.shared.sharedCount.value = m.header.shared.sharedCount.value + 1)
    (merged : header.shared.merged = m.header.shared.merged)
    (queued : header.shared.queued = m.header.shared.queued)
    (biased : header.biased = m.header.biased) :
    Inv { m with
      header := header, strong := raise m.strong t, pc := Function.update m.pc t .idle
      upgrades := upgrades } := by
  apply inv.gains alive pc before ?_ merged queued (.inl biased)
  rw [counted_iff, total_raise]
  exact inv.counts.incrementShared count merged biased

omit [DecidableEq Tid] in
theorem not_dead_of_strong (holds : 1 ≤ m.strong t) : ¬ m.Dead := by
  rintro ⟨_, zero⟩
  have := le_total m.strong t
  omega

theorem sharedIncrement (inv : m.Inv) (pc : m.pc t = .sharedIncrement)
    (noCarry : m.header.shared.sharedCount.value ≠ -1)
    (below : ¬ RawBrcHeader.pastThreshold m.header.shared = true) :
    ((m.hold m.header.fetchAddShared (raise m.strong t)).goto t .idle).Inv := by
  have holds := inv.strongAt pc rfl
  have count : m.header.shared.sharedCount.wrappingSucc.value =
      m.header.shared.sharedCount.value + 1 :=
    SharedCount.value_wrappingSucc (RawBrcHeader.below_of_not_pastThreshold below)
  refine inv.gainsShared (not_dead_of_strong holds) pc rfl ?_ ?_ ?_ rfl
  · simp only [hold, RawBrcHeader.shared_fetchAddShared noCarry, count]
  · simp only [hold, RawBrcHeader.shared_fetchAddShared noCarry]
  · simp only [hold, RawBrcHeader.shared_fetchAddShared noCarry]

theorem tryUpgrade (inv : m.Inv) {old : Pc pw} (pc : m.pc t = old) (before : old.plain = true)
    (holds : 1 ≤ m.weak t) (returned : m.tryUpgrade t = .ok m') : m'.Inv := by
  unfold Machine.tryUpgrade at returned
  cases attempted : m.header.shared.upgraded with
  | error fault => simp [attempted, bind, Except.bind] at returned
  | ok result =>
      cases result with
      | none =>
          simp only [attempted, bind, Except.bind, pure, Except.pure, Except.ok.injEq] at returned
          exact returned ▸ inv.returns pc before fun _ _ => rfl
      | some new =>
          simp only [attempted, bind, Except.bind, pure, Except.pure, Except.ok.injEq] at returned
          exact returned ▸ inv.load pc before rfl nofun nofun (fun _ => holds) trivial attempted

theorem upgradeExchange (inv : m.Inv) {old new upgrades} (pc : m.pc t = .upgradeExchange old new)
    (exchanged : m.header.shared = old) :
    Inv { m with
      header := m.header.storeShared new, strong := raise m.strong t
      pc := Function.update m.pc t .idle, upgrades := upgrades } := by
  have coherent := inv.coherentAt pc
  obtain ⟨alive, count, merged, queued⟩ := SharedWord.upgraded_eq_some coherent
  subst exchanged
  refine inv.gainsShared (by rwa [inv.dead_iff]) pc rfl ?_ ?_ ?_ rfl
  · simpa using count
  · simpa using merged
  · simpa using queued

theorem decrementStore (inv : m.Inv) {new} (pc : m.pc t = .decrementStore new) :
    ((m.hold (m.header.storeBiased new) (lower m.strong t)).goto t .idle).Inv := by
  have holds := inv.strongAt pc rfl
  have claims := inv.claimsAt pc
  obtain ⟨unmerged, stored⟩ := claims
  have alive : ∀ {strong pc}, ¬ Dead { m with
      header := m.header.storeBiased new, strong := strong, pc := pc } := by
    simp [Dead, unmerged]
  apply inv.moves (t := t)
  exact {
    ids := rfl
    pcs := fun _ => pc_goto_of_ne
    handles := fun t' other => ⟨lower_of_ne _ other, rfl⟩
    monotone := fun merged => merged
    frame := .inr (controls_of_decrement (by rw [stored]; nofun))
    counted := counted_iff.mpr (inv.counts.decrementBiased (total_lower holds) unmerged stored)
    released := by
      intro merged
      simp [hold, unmerged] at merged
    tokens := by simp [hold, pc, Pc.token]
    decided := ⟨fun dead => absurd dead alive, fun _ => inv.decided.2 (by simp [Dead, unmerged])⟩
    settling := by simp [hold, pc, Pc.owes]
    grows := Nat.le_refl _
    implicit := by simp [hold]
    strongHeld := by simp [hold, Pc.holdsStrong]
    weakHeld := by simp [hold, Pc.holdsWeak]
    claims := by simp [hold, Pc.Claims]
    coherent := by simp [hold, Pc.Coherent] }

/-- The owner's last biased reference: the counts are merged by setting the flag. -/
theorem slowMerge (inv : m.Inv) (pc : m.pc t = .slowMerge) {shouldDrop : Bool}
    (decision : shouldDrop = decide (m.header.shared.sharedCount.value = 0)) :
    (({ m.hold m.header.fetchOrMerged (lower m.strong t) with
      decided := m.decided + shouldDrop.toNat }).goto t (.slowRelease shouldDrop)).Inv := by
  have holds := inv.strongAt pc rfl
  have claims := inv.claimsAt pc
  obtain ⟨unmerged, slow⟩ := claims
  obtain ⟨id, owner, _, _⟩ := inv.owned unmerged
  have counts := inv.counts.decrementBiasedSlow (total_lower holds) unmerged slow
  have count : m.header.shared.sharedCount.value = total (lower m.strong t) := by
    simpa using counts.merged (by simp)
  have undecided : m.decided = 0 := inv.decided.2 (by simp [Dead, unmerged])
  have mine : m.shortId t = some id := by
    rw [← owner]
    exact (BiasedWord.owner_of_decrementBiased (by rw [slow]; rintro ⟨⟩)).1
  apply inv.moves (t := t)
  exact {
    ids := rfl
    pcs := fun _ => pc_goto_of_ne
    handles := fun t' other => ⟨lower_of_ne _ other, rfl⟩
    monotone := fun _ => by simp [hold]
    frame := .inr (controls_of_decrement (by rw [slow]; rintro ⟨⟩))
    counted := counted_iff.mpr counts
    released := fun _ => .inr (.inl (by simp [hold, Pc.releasing]))
    tokens := by simp [hold, pc, Pc.token]
    decided := by
      simp only [Dead, hold, header_goto, strong_goto, decided_goto,
        RawBrcHeader.shared_fetchOrMerged, true_and, undecided, decision]
      by_cases zero : m.header.shared.sharedCount.value = 0
      · have none : total (lower m.strong t) = 0 := by omega
        simp [zero, none]
      · have some : total (lower m.strong t) ≠ 0 := by omega
        simp [zero, some]
    settling := by
      simp only [hold, pc_goto_self, decided_goto, destroyed_goto, pc, Pc.owes]
      omega
    grows := Nat.le_refl _
    implicit := by simp [hold]
    strongHeld := by simp [hold, Pc.holdsStrong]
    weakHeld := by simp [hold, Pc.holdsWeak]
    claims := by
      simp only [hold, pc_goto_self, header_goto, Pc.Claims, RawBrcHeader.shared_fetchOrMerged,
        true_and]
      exact ⟨id, owner, mine⟩
    coherent := by simp [hold, Pc.Coherent] }

/-- Both ways of merging end with the store that clears the owner. -/
theorem release (inv : m.Inv) {old : Pc pw} (pc : m.pc t = old) (releasing : old.releasing = true)
    (dead : Bool) (owes : old.owes = dead.toNat) :
    (({ m with header := m.header.storeBiased .unowned }).goto t
      (if dead then .destroy else .idle)).Inv := by
  subst pc
  obtain ⟨merged, controls⟩ := inv.controls_of_releasing releasing
  apply inv.moves (t := t)
  exact {
    ids := rfl
    pcs := fun _ => pc_goto_of_ne
    handles := fun t' other => ⟨rfl, rfl⟩
    monotone := id
    frame := .inr controls
    counted := counted_iff.mpr (inv.counts.release merged)
    released := fun _ => .inl (by simp [BiasedWord.unowned])
    tokens := by
      cases dead <;> simp [Pc.token]
    decided := inv.decided
    settling := by
      rw [owes]
      cases dead <;> simp [Pc.owes]
    grows := Nat.le_refl _
    implicit := by cases dead <;> simp
    strongHeld := by cases dead <;> simp [Pc.holdsStrong]
    weakHeld := by cases dead <;> simp [Pc.holdsWeak]
    claims := by cases dead <;> simp [Pc.Claims]
    coherent := by cases dead <;> simp [Pc.Coherent] }

theorem tryDecrement (inv : m.Inv) {old : Pc pw} (pc : m.pc t = old) (before : old.plain = true)
    (holds : 1 ≤ m.strong t) (returned : m.tryDecrement t = .ok m') : m'.Inv := by
  unfold Machine.tryDecrement at returned
  cases attempted : m.header.shared.decremented with
  | error fault => simp [attempted, bind, Except.bind] at returned
  | ok new =>
      simp only [attempted, bind, Except.bind, pure, Except.pure, Except.ok.injEq] at returned
      exact returned ▸ inv.load pc before rfl nofun (fun _ => holds) nofun trivial attempted

/-- A reference is given up through the shared word, and the caller goes on to queue the
    object, to destroy the value or to return. -/
theorem sharedExchange (inv : m.Inv) {old new} (pc : m.pc t = .sharedExchange old new)
    (exchanged : m.header.shared = old) {p : Pc pw} (dead : Bool)
    (outcome : p = .queueLoad ∧ old.wonQueue new = true ∧ dead = false ∨
      p = .destroy ∧ old.wonQueue new = false ∧ new.isDead = true ∧ dead = true ∨
      p = .idle ∧ old.wonQueue new = false ∧ new.isDead = false ∧ dead = false) :
    (({ m.hold (m.header.storeShared new) (lower m.strong t) with
      decided := m.decided + dead.toNat }).goto t p).Inv := by
  have holds := inv.strongAt pc rfl
  have computed := inv.coherentAt pc
  obtain ⟨count, merged, queued⟩ := SharedWord.decremented_eq_ok computed
  have alive : ¬ m.Dead := not_dead_of_strong holds
  have undecided : m.decided = 0 := inv.decided.2 alive
  subst exchanged
  have counts := inv.counts.decrementShared (total_lower holds) computed
  have kept : m.header.shared.queued.toNat ≤ new.queued.toNat := by
    rw [queued]
    cases m.header.shared.queued <;> simp
  have settled : new.isDead = true ↔ new.merged = true ∧ total (lower m.strong t) = 0 := by
    simpa only [RawBrcHeader.shared_storeShared] using counts.isDead_iff
  apply inv.moves (t := t)
  exact {
    ids := rfl
    pcs := fun _ => pc_goto_of_ne
    handles := fun t' other => ⟨lower_of_ne _ other, rfl⟩
    monotone := fun was => by simpa [hold, merged] using was
    frame := .inl ⟨rfl, by simpa [hold] using merged⟩
    counted := counted_iff.mpr counts
    released := fun isMerged => .inr (.inr ⟨by simpa [hold, merged] using isMerged, rfl, by rw [pc]; rfl⟩)
    tokens := by
      simp only [hold, entry_goto, header_goto, pc_goto_self, pc, RawBrcHeader.shared_storeShared]
      rcases outcome with ⟨rfl, won, _⟩ | ⟨rfl, _⟩ | ⟨rfl, _⟩
      · obtain ⟨unqueued, negative⟩ := (SharedWord.wonQueue_eq_true computed).mp won
        simp [unqueued, queued, negative, Pc.token]
      · simpa [Pc.token] using kept
      · simpa [Pc.token] using kept
    decided := by
      simp only [Dead, hold, header_goto, strong_goto, decided_goto, RawBrcHeader.shared_storeShared,
        undecided, ← settled]
      rcases outcome with ⟨_, won, rfl⟩ | ⟨_, _, isDead, rfl⟩ | ⟨_, _, isDead, rfl⟩
      · have negative := ((SharedWord.wonQueue_eq_true computed).mp won).2
        have notDead : ¬ new.isDead = true := by
          rw [SharedWord.isDead_eq_true]
          omega
        simp [notDead]
      · simp [isDead]
      · simp [isDead]
    settling := by
      simp only [hold, pc_goto_self, decided_goto, destroyed_goto, pc]
      rcases outcome with ⟨rfl, _, rfl⟩ | ⟨rfl, _, _, rfl⟩ | ⟨rfl, _, _, rfl⟩ <;>
        simp only [Pc.owes, Bool.toNat_false, Bool.toNat_true] <;>
        omega
    grows := Nat.le_refl _
    implicit := by
      rcases outcome with ⟨rfl, _⟩ | ⟨rfl, _⟩ | ⟨rfl, _⟩ <;> simp
    strongHeld := by
      rcases outcome with ⟨rfl, _⟩ | ⟨rfl, _⟩ | ⟨rfl, _⟩ <;> simp [Pc.holdsStrong]
    weakHeld := by
      rcases outcome with ⟨rfl, _⟩ | ⟨rfl, _⟩ | ⟨rfl, _⟩ <;> simp [Pc.holdsWeak]
    claims := by
      rcases outcome with ⟨rfl, _⟩ | ⟨rfl, _⟩ | ⟨rfl, _⟩ <;> simp [Pc.Claims]
    coherent := by
      rcases outcome with ⟨rfl, _⟩ | ⟨rfl, _⟩ | ⟨rfl, _⟩ <;> simp [Pc.Coherent] }

/-- The queue entry is left in the queue or taken from it. -/
theorem entry (inv : m.Inv) {old p : Pc pw} {entry : Option ShortThreadId} (pc : m.pc t = old)
    (before : old.releasing = false)
    (token : entry.isSome.toNat + p.token = m.entry.isSome.toNat + old.token)
    (owes : p.owes = old.owes) (implicit : p ≠ .releaseImplicit)
    (strongHeld : p.holdsStrong = false) (weakHeld : p.holdsWeak = false)
    (claims : p.Claims m t) (coherent : p.Coherent) :
    (({ m with entry := entry }).goto t p).Inv := by
  subst pc
  apply inv.moves (t := t)
  exact {
    ids := rfl
    pcs := fun _ => pc_goto_of_ne
    handles := fun t' other => ⟨rfl, rfl⟩
    monotone := fun merged => merged
    frame := .inl ⟨rfl, rfl⟩
    counted := ⟨inv.owned, inv.merged⟩
    released := fun merged => .inr (.inr ⟨merged, rfl, before⟩)
    tokens := by simp only [entry_goto, pc_goto_self, header_goto, token]; omega
    decided := inv.decided
    settling := by simp only [pc_goto_self, destroyed_goto, decided_goto, owes]
    grows := Nat.le_refl _
    implicit := by simp only [pc_goto_self]; exact fun same => absurd same implicit
    strongHeld := by simp [strongHeld]
    weakHeld := by simp [weakHeld]
    claims := by
      simp only [pc_goto_self]
      exact claims.frame rfl (fun merged => merged) (.inl ⟨rfl, rfl⟩)
    coherent := by simpa only [pc_goto_self] using coherent }

theorem mergeLoad (inv : m.Inv) {id} (pc : m.pc t = .mergeLoad id)
    (owner : m.header.biased.ownerId = some id) :
    (m.goto t (.mergeSharedLoad m.header.biased.biasedCount)).Inv := by
  have may := inv.claims t
  rw [pc] at may
  have controls : m.Controls t (m.pc t) := ⟨id, owner, .inr ⟨by rw [pc]; rfl, may⟩⟩
  have unmerged := inv.unmerged_of_controls pc controls rfl
  exact inv.goto pc rfl rfl rfl nofun nofun nofun
    ⟨unmerged, rfl, id, owner, may⟩ trivial

theorem tryMerge (inv : m.Inv) {old : Pc pw} {biased} (pc : m.pc t = old)
    (before : old.releasing = false) (token : 1 = old.token) (owes : 0 = old.owes)
    (claims : (Pc.mergeSharedLoad biased).Claims m t)
    (returned : m.tryMerge t biased = .ok m') : m'.Inv := by
  unfold Machine.tryMerge at returned
  cases attempted : m.header.shared.mergedWith biased with
  | error fault => simp [attempted, bind, Except.bind] at returned
  | ok new =>
      simp only [attempted, bind, Except.bind, pure, Except.pure, Except.ok.injEq] at returned
      exact returned ▸ inv.goto pc before token owes nofun nofun nofun claims attempted

/-- The counts are merged by the exchange of `explicit_merge`. -/
theorem mergeExchange (inv : m.Inv) {biased old new} (pc : m.pc t = .mergeExchange biased old new)
    (exchanged : m.header.shared = old) {dead : Bool}
    (decision : dead = decide (new.sharedCount.value = 0)) :
    (({ m with
      header := m.header.storeShared new
      decided := m.decided + dead.toNat }).goto t (.mergeRelease new)).Inv := by
  have claims := inv.claimsAt pc
  have computed := inv.coherentAt pc
  obtain ⟨unmerged, rfl, id, owner, may⟩ := claims
  obtain ⟨_, _, merged, queued⟩ := SharedWord.mergedWith_eq_ok computed
  have undecided : m.decided = 0 := inv.decided.2 (by simp [Dead, unmerged])
  subst exchanged
  have counts := inv.counts.explicitMerge computed
  have count : new.sharedCount.value = total m.strong := by
    simpa using counts.merged (by simpa using merged)
  apply inv.moves (t := t)
  exact {
    ids := rfl
    pcs := fun _ => pc_goto_of_ne
    handles := fun t' other => ⟨rfl, rfl⟩
    monotone := fun _ => by simp [merged]
    frame := .inr ⟨id, owner, .inr ⟨by rw [pc]; rfl, may⟩⟩
    counted := counted_iff.mpr counts
    released := fun _ => .inr (.inl (by simp [Pc.releasing]))
    tokens := by simp [pc, queued, Pc.token]
    decided := by
      have zero : new.sharedCount.value = 0 ↔ total m.strong = 0 := by omega
      simp only [Dead, header_goto, strong_goto, decided_goto, RawBrcHeader.shared_storeShared,
        merged, true_and, undecided, decision, zero]
      constructor <;> intro dead <;> simp [dead]
    settling := by
      simp only [pc_goto_self, decided_goto, destroyed_goto, pc, Pc.owes, decision]
      by_cases zero : new.sharedCount.value = 0 <;>
        simp only [zero, if_true, if_false, decide_true, decide_false, Bool.toNat_true,
          Bool.toNat_false] <;>
        omega
    grows := Nat.le_refl _
    implicit := by simp
    strongHeld := by simp [Pc.holdsStrong]
    weakHeld := by simp [Pc.holdsWeak]
    claims := by
      simp only [pc_goto_self, Pc.Claims, header_goto, RawBrcHeader.shared_storeShared, merged,
        true_and]
      exact ⟨id, owner, may⟩
    coherent := by simp [Pc.Coherent] }

theorem destroy (inv : m.Inv) (pc : m.pc t = .destroy) :
    (({ m with destroyed := m.destroyed + 1 }).goto t .releaseImplicit).Inv := by
  apply inv.moves (t := t)
  exact {
    ids := rfl
    pcs := fun _ => pc_goto_of_ne
    handles := fun t' other => ⟨rfl, rfl⟩
    monotone := fun merged => merged
    frame := .inl ⟨rfl, rfl⟩
    counted := ⟨inv.owned, inv.merged⟩
    released := fun merged => .inr (.inr ⟨merged, rfl, by rw [pc]; rfl⟩)
    tokens := by simp [pc, Pc.token]
    decided := inv.decided
    settling := by
      simp only [pc_goto_self, destroyed_goto, decided_goto, pc, Pc.owes]
      omega
    grows := Nat.le_succ _
    implicit := by simp
    strongHeld := by simp [Pc.holdsStrong]
    weakHeld := by simp [Pc.holdsWeak]
    claims := by simp [Pc.Claims]
    coherent := by simp [Pc.Coherent] }

theorem uniqueLoad (inv : m.Inv) (pc : m.pc t = .uniqueLoad) :
    (m.goto t (if m.header.biased.isDefinitelyNotUnique (m.shortId t) then .idle
      else .uniqueLock)).Inv := by
  have holds := inv.strongAt pc rfl
  split
  · exact inv.load pc rfl rfl nofun nofun nofun trivial trivial
  · rename_i possible
    refine inv.load pc rfl rfl nofun (fun _ => holds) nofun ?_ trivial
    cases owner : m.header.biased.ownerId with
    | none =>
        left
        by_contra unmerged
        obtain ⟨id, owned, _⟩ := inv.owned (by simpa using unmerged)
        rw [owner] at owned
        cases owned
    | some id =>
        right
        refine ⟨id, owner, ?_⟩
        simp [BiasedWord.isDefinitelyNotUnique, owner] at possible
        exact possible.symm

theorem uniqueSharedLoad (inv : m.Inv) (pc : m.pc t = .uniqueSharedLoad) :
    (m.goto t (.uniqueBiasedLoad m.header.shared (total m.strong) (total m.weak))).Inv := by
  have holds := inv.strongAt pc rfl
  have claims := inv.claimsAt pc
  refine inv.load pc rfl rfl nofun (fun _ => holds) nofun ?_ trivial
  cases merged : m.header.shared.merged with
  | true =>
      left
      have count := inv.merged merged
      exact ⟨merged, fun one => by omega⟩
  | false =>
      right
      obtain ⟨_, _, _, split⟩ := inv.owned merged
      exact ⟨merged, claims.resolve_left (by simp [merged]), fun one => by omega⟩

theorem uniqueBiasedLoad (inv : m.Inv) {shared strong weak}
    (pc : m.pc t = .uniqueBiasedLoad shared strong weak) :
    (m.goto t (.uniqueUnlock (RawBrcHeader.isUnique (m.shortId t) shared m.header.biased)
      strong weak)).Inv := by
  have holds := inv.strongAt pc rfl
  have claims := inv.claimsAt pc
  refine inv.load pc rfl rfl nofun (fun _ => holds) nofun ?_ trivial
  intro unique
  rcases RawBrcHeader.isUnique_iff.mp unique with ⟨merged, one⟩ | ⟨unmerged, _, one⟩
  · rcases claims with ⟨_, seen⟩ | ⟨unmerged, _⟩
    · exact seen one
    · rw [merged] at unmerged
      cases unmerged
  · rcases claims with ⟨merged, _⟩ | ⟨_, _, seen⟩
    · rw [merged] at unmerged
      cases unmerged
    · exact seen one

end Inv

/-- The step does not add to a shared count of -1. -/
def NoCarry (m : Machine pw Tid) : Act Tid → Prop
  | .advance t _ => m.pc t = .sharedIncrement → m.header.shared.sharedCount.value ≠ -1
  | _ => True

instance (m : Machine pw Tid) : (act : Act Tid) → Decidable (m.NoCarry act)
  | .advance t _ => inferInstanceAs
      (Decidable (m.pc t = .sharedIncrement → m.header.shared.sharedCount.value ≠ -1))
  | .start _ _ | .merge _ | .die _ | .send _ _ | .sendWeak _ _ => inferInstanceAs (Decidable True)

namespace Inv

variable {m m' : Machine pw Tid} {t : Tid}

/-- One access of a call. -/
theorem advance (inv : m.Inv) {spurious : Bool}
    (noCarry : m.pc t = .sharedIncrement → m.header.shared.sharedCount.value ≠ -1)
    (returned : m.advance t spurious = .ok m') : m'.Inv := by
  unfold Machine.advance at returned
  cases pc : m.pc t with
  | idle =>
      simp only [pc, Except.ok.injEq] at returned
      exact returned ▸ inv
  | incrementLoad upgrade =>
      simp only [pc] at returned
      cases taken : m.header.biased.attemptIncrement (m.shortId t) with
      | some new =>
          simp only [taken, Except.ok.injEq] at returned
          have unmerged := inv.unmerged_of_controls pc (controls_of_attempt taken) rfl
          exact returned ▸ inv.load pc rfl rfl (by rintro ⟨⟩)
            (fun held => inv.strongAt pc held) (fun held => inv.weakAt pc held) ⟨unmerged, taken⟩ trivial
      | none =>
          simp only [taken, Except.ok.injEq] at returned
          subst returned
          cases upgrade with
          | true =>
              exact inv.load pc rfl rfl (by rintro ⟨⟩) (by rintro ⟨⟩) (fun _ => inv.weakAt pc rfl)
                trivial trivial
          | false =>
              exact inv.load pc rfl rfl (by rintro ⟨⟩) (fun _ => inv.strongAt pc rfl) (by rintro ⟨⟩)
                trivial trivial
  | incrementStore upgrade new =>
      simp only [pc, Except.ok.injEq] at returned
      subst returned
      cases upgrade <;> exact inv.incrementStore pc
  | sharedIncrement =>
      simp only [pc] at returned
      split at returned
      · cases returned
      · rename_i below
        cases returned
        exact inv.sharedIncrement pc (noCarry pc) below
  | upgradeLoad =>
      simp only [pc] at returned
      exact inv.tryUpgrade pc rfl (inv.weakAt pc rfl) returned
  | upgradeExchange old new =>
      simp only [pc] at returned
      split at returned
      · rename_i exchanged
        cases returned
        exact inv.upgradeExchange pc (exchanges_iff.mp exchanged).2
      · exact inv.tryUpgrade pc rfl (inv.weakAt pc rfl) returned
  | decrementLoad =>
      simp only [pc] at returned
      have holds := inv.strongAt pc rfl
      have unmerged (owner : m.header.biased.decrementBiased (m.shortId t) ≠ .notOwner) :
          m.header.shared.merged = false :=
        inv.unmerged_of_controls pc (controls_of_decrement owner) rfl
      cases taken : m.header.biased.decrementBiased (m.shortId t) with
      | notOwner =>
          simp only [taken, Except.ok.injEq] at returned
          exact returned ▸ inv.load pc rfl rfl (by rintro ⟨⟩) (fun _ => holds)
            (by rintro ⟨⟩) trivial trivial
      | store new =>
          simp only [taken, Except.ok.injEq] at returned
          exact returned ▸ inv.load pc rfl rfl (by rintro ⟨⟩) (fun _ => holds)
            (by rintro ⟨⟩) ⟨unmerged (by rw [taken]; rintro ⟨⟩), taken⟩ trivial
      | slow =>
          simp only [taken, Except.ok.injEq] at returned
          exact returned ▸ inv.load pc rfl rfl (by rintro ⟨⟩) (fun _ => holds)
            (by rintro ⟨⟩) ⟨unmerged (by rw [taken]; rintro ⟨⟩), taken⟩ trivial
  | decrementStore new =>
      simp only [pc, Except.ok.injEq] at returned
      exact returned ▸ inv.decrementStore pc
  | slowMerge =>
      simp only [pc, Except.ok.injEq] at returned
      exact returned ▸ inv.slowMerge pc rfl
  | slowRelease shouldDrop =>
      simp only [pc, Except.ok.injEq] at returned
      exact returned ▸ inv.release pc rfl shouldDrop rfl
  | sharedLoad =>
      simp only [pc] at returned
      exact inv.tryDecrement pc rfl (inv.strongAt pc rfl) returned
  | sharedExchange old new =>
      simp only [pc] at returned
      split at returned
      · rename_i exchanged
        have exchanged : m.header.shared = old := (exchanges_iff.mp exchanged).2
        split at returned
        · rename_i won
          cases returned
          exact inv.sharedExchange pc exchanged false (.inl ⟨rfl, won, rfl⟩)
        · rename_i lost
          rw [Bool.not_eq_true] at lost
          split at returned
          · rename_i isDead
            cases returned
            exact inv.sharedExchange pc exchanged true
              (.inr (.inl ⟨rfl, lost, isDead, rfl⟩))
          · rename_i isAlive
            rw [Bool.not_eq_true] at isAlive
            cases returned
            exact inv.sharedExchange pc exchanged false
              (.inr (.inr ⟨rfl, lost, isAlive, rfl⟩))
      · exact inv.tryDecrement pc rfl (inv.strongAt pc rfl) returned
  | queueLoad =>
      simp only [pc] at returned
      cases owner : m.header.biased.ownerId with
      | none => simp [owner] at returned
      | some id =>
          simp only [owner, Except.ok.injEq] at returned
          exact returned ▸ inv.goto pc rfl rfl rfl
            (by rintro ⟨⟩) (by rintro ⟨⟩) (by rintro ⟨⟩) trivial trivial
  | queuePush owner =>
      simp only [pc, Except.ok.injEq] at returned
      have token : m.entry.isSome = false := by
        have bound := inv.tokens
        have here := le_tally Pc.token m.pc t
        have flag := Bool.toNat_le m.header.shared.queued
        rw [pc, show (Pc.queuePush owner : Pc pw).token = 1 from rfl] at here
        cases entry : m.entry.isSome <;> simp [entry] at bound ⊢
        omega
      exact returned ▸ inv.entry pc rfl (by rw [token]; rfl) rfl
        (by rintro ⟨⟩) rfl rfl trivial trivial
  | mergeLoad id =>
      simp only [pc] at returned
      split at returned
      · cases returned
      · rename_i owner
        simp only [ne_eq, Decidable.not_not] at owner
        cases returned
        exact inv.mergeLoad pc owner
  | mergeSharedLoad biased =>
      simp only [pc] at returned
      have claims := inv.claimsAt pc
      exact inv.tryMerge pc rfl rfl rfl claims returned
  | mergeExchange biased old new =>
      simp only [pc] at returned
      have claims := inv.claimsAt pc
      split at returned
      · rename_i exchanged
        cases returned
        exact inv.mergeExchange pc (exchanges_iff.mp exchanged).2 rfl
      · exact inv.tryMerge pc rfl rfl rfl claims returned
  | mergeRelease new =>
      simp only [pc] at returned
      split at returned
      · cases returned
      · cases returned
        have released := inv.release pc rfl (decide (new.sharedCount.value = 0))
          (by simp [Pc.owes, Bool.toNat, Bool.cond_decide])
        simpa using released
  | destroy =>
      simp only [pc, Except.ok.injEq] at returned
      exact returned ▸ inv.destroy pc
  | releaseImplicit =>
      simp only [pc, Except.ok.injEq] at returned
      exact returned ▸ inv.returns pc rfl fun _ _ => rfl
  | downgradeLoad =>
      simp only [pc, Except.ok.injEq] at returned
      exact returned ▸ inv.load pc rfl rfl (by rintro ⟨⟩)
        (fun _ => inv.strongAt pc rfl) (by rintro ⟨⟩) trivial trivial
  | downgradeExchange old =>
      have reloads : (m.goto t (.downgradeExchange m.weakCount)).Inv :=
        inv.load pc rfl rfl (by rintro ⟨⟩) (fun _ => inv.strongAt pc rfl)
          (by rintro ⟨⟩) trivial trivial
      simp only [pc] at returned
      split at returned
      · cases returned
        exact reloads
      · split at returned
        · cases returned
        · split at returned
          · cases returned
            exact inv.returns pc rfl fun _ other => raise_of_ne _ other
          · cases returned
            exact reloads
  | weakIncrement =>
      simp only [pc] at returned
      split at returned
      · cases returned
      · cases returned
        exact inv.returns pc rfl fun _ other => raise_of_ne _ other
  | weakDecrement =>
      simp only [pc, Except.ok.injEq] at returned
      exact returned ▸ inv.returns pc rfl fun _ other => lower_of_ne _ other
  | uniqueLoad =>
      simp only [pc, Except.ok.injEq] at returned
      exact returned ▸ inv.uniqueLoad pc
  | uniqueLock =>
      simp only [pc] at returned
      have claims := inv.claimsAt pc
      split at returned
      · cases returned
        exact inv.elsewhere pc rfl rfl rfl (fun _ _ => rfl)
          (by rintro ⟨⟩) (fun _ => inv.strongAt pc rfl) (by rintro ⟨⟩) claims trivial
      · cases returned
        exact inv.returns pc rfl fun _ _ => rfl
  | uniqueSharedLoad =>
      simp only [pc, Except.ok.injEq] at returned
      exact returned ▸ inv.uniqueSharedLoad pc
  | uniqueBiasedLoad shared strong weak =>
      simp only [pc, Except.ok.injEq] at returned
      exact returned ▸ inv.uniqueBiasedLoad pc
  | uniqueUnlock result strong weak =>
      simp only [pc, Except.ok.injEq] at returned
      exact returned ▸ inv.returns pc rfl fun _ _ => rfl

/-- The local state of an idle thread is destroyed. -/
theorem die (inv : m.Inv) (idle : m.pc t = .idle) :
    Inv { m with shortId := Function.update m.shortId t none } where
  toCounted := ⟨inv.owned, inv.merged⟩
  distinct := by
    intro t₁ t₂ id (first : Function.update _ _ _ t₁ = _) (second : Function.update _ _ _ t₂ = _)
    by_cases same₁ : t₁ = t
    · simp [same₁] at first
    · by_cases same₂ : t₂ = t
      · simp [same₂] at second
      · rw [Function.update_of_ne same₁] at first
        rw [Function.update_of_ne same₂] at second
        exact inv.distinct first second
  released := inv.released
  tokens := inv.tokens
  decided := inv.decided
  settling := inv.settling
  implicit := inv.implicit
  strongHeld := inv.strongHeld
  weakHeld := inv.weakHeld
  claims := by
    intro t'
    by_cases same : t' = t
    · subst same
      simp [idle, Pc.Claims]
    · have kept : Function.update m.shortId t none t' = m.shortId t' := Function.update_of_ne same ..
      have owns : m.Owns t' → Owns { m with shortId := Function.update m.shortId t none } t' := by
        rintro ⟨id, owner, mine⟩
        exact ⟨id, owner, kept.trans mine⟩
      have may : ∀ {id}, m.MayMerge t' id →
          MayMerge { m with shortId := Function.update m.shortId t none } t' id := by
        rintro id (mine | gone)
        · exact .inl (kept.trans mine)
        · right
          intro t''
          by_cases died : t'' = t
          · simp [died]
          · simpa only [Function.update_of_ne died] using gone t''
      have claims := inv.claims t'
      change (m.pc t').Claims _ t'
      cases pc : m.pc t' <;> rw [pc] at claims <;> simp only [Pc.Claims, kept] at claims ⊢
      case slowRelease => exact ⟨claims.1, owns claims.2⟩
      case mergeLoad => exact may claims
      case mergeSharedLoad | mergeExchange =>
        obtain ⟨unmerged, same, id, owner, mine⟩ := claims
        exact ⟨unmerged, same, id, owner, may mine⟩
      case mergeRelease =>
        obtain ⟨merged, id, owner, mine⟩ := claims
        exact ⟨merged, id, owner, may mine⟩
      case uniqueLock | uniqueSharedLoad => exact claims.imp_right owns
      case uniqueBiasedLoad =>
        exact claims.imp_right fun ⟨unmerged, mine, seen⟩ => ⟨unmerged, owns mine, seen⟩
      all_goals exact claims
  coherent := inv.coherent

/-- A handle changes hands between two calls. -/
theorem send (inv : m.Inv) {source target : Tid} (idle : m.pc source = .idle)
    (holds : 1 ≤ m.strong source) :
    Inv { m with strong := raise (lower m.strong source) target } := by
  have same : total (raise (lower m.strong source) target) = total m.strong := by
    rw [total_raise, total_lower holds]
  have dead : Dead { m with strong := raise (lower m.strong source) target } ↔ m.Dead := by
    simp only [Dead, same]
  exact {
    owned := by simpa only [same] using inv.owned
    merged := by simpa only [same] using inv.merged
    distinct := inv.distinct
    released := inv.released
    tokens := inv.tokens
    decided := by simpa only [dead] using inv.decided
    settling := inv.settling
    implicit := inv.implicit
    strongHeld := by
      intro t' held
      have other : t' ≠ source := by
        rintro rfl
        simp [idle, Pc.holdsStrong] at held
      have before := inv.strongHeld t' held
      have more := le_raise (lower m.strong source) target t'
      rw [lower_of_ne _ other] at more
      exact before.trans more
    weakHeld := inv.weakHeld
    claims := fun t' => (inv.claims t').frame rfl (fun merged => merged) (.inl ⟨rfl, rfl⟩)
    coherent := inv.coherent }

theorem sendWeak (inv : m.Inv) {source target : Tid} (idle : m.pc source = .idle) :
    Inv { m with weak := raise (lower m.weak source) target } where
  toCounted := ⟨inv.owned, inv.merged⟩
  distinct := inv.distinct
  released := inv.released
  tokens := inv.tokens
  decided := inv.decided
  settling := inv.settling
  implicit := inv.implicit
  strongHeld := inv.strongHeld
  weakHeld := by
    intro t' held
    have other : t' ≠ source := by
      rintro rfl
      simp [idle, Pc.holdsWeak] at held
    have before := inv.weakHeld t' held
    have more := le_raise (lower m.weak source) target t'
    rw [lower_of_ne _ other] at more
    exact before.trans more
  claims := fun t' => (inv.claims t').frame rfl (fun merged => merged) (.inl ⟨rfl, rfl⟩)
  coherent := inv.coherent

/-- Every step that does not carry. -/
theorem next (inv : m.Inv) {act : Act Tid} (noCarry : m.NoCarry act)
    (taken : m.next act = some m') : m'.Inv := by
  cases step_of_next taken with
  | @start t op idle may =>
      cases op <;>
        exact inv.load idle rfl rfl nofun (by first | exact fun _ => may | nofun)
          (by first | exact fun _ => may | nofun) trivial trivial
  | advance _ returned => exact inv.advance noCarry returned
  | merge entry idle may =>
      exact inv.entry idle rfl (by rw [entry]; rfl) rfl nofun rfl rfl
        may trivial
  | die idle => exact inv.die idle
  | send idle holds => exact inv.send idle holds
  | sendWeak idle _ => exact inv.sendWeak idle

end Inv

/-- Between two calls the header agrees with the live strong handles. -/
structure Agrees (m : Machine pw Tid) : Prop extends m.Counted where
  idle : ∀ t, m.pc t = .idle
  distinct : ∀ {t t' id}, m.shortId t = some id → m.shortId t' = some id → t = t'
  released : m.header.shared.merged = true → m.header.biased.ownerId = none
  entry : m.entry.isSome = true → m.header.shared.queued = true
  decided : (m.Dead → m.decided = 1) ∧ (¬ m.Dead → m.decided = 0)
  destroyed : m.destroyed = m.decided

/-- An unmerged header whose owner is the only thread that has an id. -/
theorem Agrees.of_unmerged {m : Machine pw Tid} {owner : Tid} {id : ShortThreadId}
    (unmerged : m.header.shared.merged = false) (owned : m.header.biased.ownerId = some id)
    (positive : 1 ≤ m.header.biased.biasedCount.toNat)
    (split : (m.header.biased.biasedCount.toNat : Int) + m.header.shared.sharedCount.value =
      total m.strong)
    (idle : ∀ t, m.pc t = .idle) (ids : m.shortId = fun t => if t = owner then some id else none)
    (entry : m.entry.isSome = true → m.header.shared.queued = true) (decided : m.decided = 0)
    (destroyed : m.destroyed = 0) : m.Agrees where
  owned _ := ⟨id, owned, positive, split⟩
  merged merged := absurd (unmerged.symm.trans merged) nofun
  idle := idle
  distinct {t t' id'} mine other := by
    simp only [ids, Option.ite_none_right_eq_some] at mine other
    exact mine.1.trans other.1.symm
  released merged := absurd (unmerged.symm.trans merged) nofun
  entry := entry
  decided := ⟨fun dead => absurd (unmerged.symm.trans dead.1) nofun, fun _ => decided⟩
  destroyed := destroyed.trans decided.symm

omit [DecidableEq Tid] in
theorem Agrees.inv {m : Machine pw Tid} (agrees : m.Agrees) : m.Inv where
  toCounted := agrees.toCounted
  distinct := agrees.distinct
  released merged := .inl (agrees.released merged)
  tokens := by
    have none : tally Pc.token m.pc = 0 :=
      (tally_eq_zero_iff ..).mpr fun t => by rw [agrees.idle t]; rfl
    have entry := agrees.entry
    cases queued : m.entry.isSome <;> simp_all
  decided := agrees.decided
  settling := by
    have none : tally Pc.owes m.pc = 0 :=
      (tally_eq_zero_iff ..).mpr fun t => by rw [agrees.idle t]; rfl
    rw [none, agrees.destroyed, Nat.zero_add]
  implicit t pc := by simp [agrees.idle t] at pc
  strongHeld t held := by simp [agrees.idle t, Pc.holdsStrong] at held
  weakHeld t held := by simp [agrees.idle t, Pc.holdsWeak] at held
  claims t := by simp [agrees.idle t, Pc.Claims]
  coherent t := by simp [agrees.idle t, Pc.Coherent]

end Machine

end BiasedRc
