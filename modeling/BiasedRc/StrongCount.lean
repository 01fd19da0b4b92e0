import BiasedRc.Lib.Outcome
import BiasedRc.MachineEffects

/-! # Counting strong handles while others give theirs up

`strong_count` loads the shared word and then the biased word. Between the two a
merge can move the biased count into the shared word and clear the owner, and a
caller without an id takes a cleared owner for itself. A merge by
`decrement_biased_slow` gives a handle up, so the sum that such a caller forms is
the number of handles at some moment of the call. A merge by `explicit_merge`
gives none up.
-/

namespace BiasedRc


open Tally Outcome Transition.System

variable {pw : PointerWidth} {Tid : Type} [DecidableEq Tid]

/-- The call of `strong_count`. -/
inductive CountPhase (pw : PointerWidth) where
  | before
  | sharedLoad
  | biasedLoad (shared : SharedWord pw)
  | returned (result : Except Nat Nat)

/-- The machine, the call of one more thread, and the numbers of handles during it. -/
structure Counting (pw : PointerWidth) (Tid : Type) where
  machine : Machine pw Tid
  phase : CountPhase pw
  totals : List Nat

inductive CountAct (Tid : Type) where
  | machine (act : Act Tid)
  | call
  | load
  deriving DecidableEq

/-- The step is none of the caller's and begins no call that makes a strong handle. -/
def Act.GivesUp (caller : Tid) : Act Tid → Prop
  | .start t op => t ≠ caller ∧ op ≠ .clone ∧ op ≠ .cloneShared ∧ op ≠ .upgrade
  | .merge t | .die t | .advance t _ => t ≠ caller
  | .send source _ => source ≠ caller
  | .sendWeak _ _ => True

instance (caller : Tid) : (act : Act Tid) → Decidable (act.GivesUp caller)
  | .start _ _ => inferInstanceAs (Decidable (_ ∧ _ ∧ _ ∧ _))
  | .merge t | .die t | .advance t _ => inferInstanceAs (Decidable (t ≠ caller))
  | .send source _ => inferInstanceAs (Decidable (source ≠ caller))
  | .sendWeak _ _ => inferInstanceAs (Decidable True)

/-- The call is under way. -/
def CountPhase.running : CountPhase pw → Bool
  | .sharedLoad | .biasedLoad _ => true
  | .before | .returned _ => false

/-- The call has loaded a word that was not merged. -/
def CountPhase.sawUnmerged : CountPhase pw → Bool
  | .biasedLoad shared => !shared.merged
  | _ => false

/-- The next access is the store of `explicit_merge` that clears the owner. -/
def Pc.unbiases : Pc pw → Bool
  | .mergeRelease _ => true
  | _ => false

variable [Fintype Tid]

namespace Machine

/-- An access of a call that makes no strong handle, by what it does to the header. -/
inductive Shrink (m : Machine pw Tid) (t : Tid) (m' : Machine pw Tid) : Prop where
  | quiet (before : (m.pc t).releasing = false) (header : m'.header = m.header)
      (strong : m'.strong = m.strong)
  | store {new} (call : m.pc t = .decrementStore new) (header : m'.header = m.header.storeBiased new)
      (strong : m'.strong = lower m.strong t)
  | decrement {new} (call : m.pc t = .sharedExchange m.header.shared new)
      (header : m'.header = m.header.storeShared new) (strong : m'.strong = lower m.strong t)
  | slow (call : m.pc t = .slowMerge) (header : m'.header = m.header.fetchOrMerged)
      (strong : m'.strong = lower m.strong t)
  | merge {biased new} (call : m.pc t = .mergeExchange biased m.header.shared new)
      (header : m'.header = m.header.storeShared new) (strong : m'.strong = m.strong)
      (after : m'.pc t = .mergeRelease new)
  | release (call : (m.pc t).releasing = true) (header : m'.header = m.header.storeBiased .unowned)
      (strong : m'.strong = m.strong)

/-- The calls that make a strong handle. -/
def Makes (pc : Pc pw) : Prop := pc.call = some .clone ∨ pc.call = some .upgrade

theorem advance_shrink {m m' : Machine pw Tid} {t spurious} (none : ¬ Makes (m.pc t))
    (returned : m.advance t spurious = .ok m') : m.Shrink t m' := by
  unfold advance at returned
  cases pc : m.pc t
  case incrementLoad upgrade => exact absurd (by cases upgrade <;> simp [Makes, pc, Pc.call]) none
  case incrementStore upgrade _ => exact absurd (by cases upgrade <;> simp [Makes, pc, Pc.call]) none
  case sharedIncrement => exact absurd (.inl (by rw [pc]; rfl)) none
  case upgradeLoad => exact absurd (.inr (by rw [pc]; rfl)) none
  case upgradeExchange => exact absurd (.inr (by rw [pc]; rfl)) none
  case decrementStore new =>
    simp only [pc, Except.ok.injEq] at returned
    exact returned ▸ .store pc rfl rfl
  case slowMerge =>
    simp only [pc, Except.ok.injEq] at returned
    exact returned ▸ .slow pc rfl rfl
  case slowRelease =>
    simp only [pc, Except.ok.injEq] at returned
    exact returned ▸ .release (by rw [pc]; rfl) rfl rfl
  case mergeRelease new =>
    simp only [pc] at returned
    split at returned
    · cases returned
    · cases returned
      exact .release (by rw [pc]; rfl) rfl rfl
  case sharedExchange old new =>
    simp only [pc] at returned
    split at returned
    · rename_i exchanged
      have exchanged : m.header.shared = old := (exchanges_iff.mp exchanged).2
      subst exchanged
      (repeat' split at returned) <;> cases returned <;> exact .decrement pc rfl rfl
    · simp only [tryDecrement, bind, Except.bind, pure, Except.pure] at returned
      split at returned <;> cases returned
      exact .quiet (by rw [pc]; rfl) rfl rfl
  case mergeExchange biased old new =>
    simp only [pc] at returned
    split at returned
    · rename_i exchanged
      have exchanged : m.header.shared = old := (exchanges_iff.mp exchanged).2
      subst exchanged
      cases returned
      exact .merge pc rfl rfl pc_goto_self
    · simp only [tryMerge, bind, Except.bind, pure, Except.pure] at returned
      split at returned <;> cases returned
      exact .quiet (by rw [pc]; rfl) rfl rfl
  -- loads, and accesses to the weak count
  all_goals
    simp only [pc, tryDecrement, tryMerge, bind, Except.bind, pure, Except.pure] at returned
    (repeat' split at returned) <;> cases returned <;>
      exact .quiet (by rw [pc]; rfl) rfl rfl

end Machine

namespace Counting

/-- The total is noted while the call is under way. -/
def note (s : Counting pw Tid) (machine : Machine pw Tid) : Counting pw Tid :=
  { s with
    machine
    totals := if s.phase.running then s.totals ++ [total machine.strong] else s.totals }

/-- The next step of the call of `strong_count`. -/
def load (caller : Tid) (s : Counting pw Tid) : Option (Counting pw Tid) :=
  match s.phase with
  | .sharedLoad => some { s with phase := .biasedLoad s.machine.header.shared }
  | .biasedLoad shared => some { s with
      phase := .returned (RawBrcHeader.strongCount (s.machine.shortId caller) shared
        s.machine.header.biased) }
  | .before | .returned _ => none

def next (caller : Tid) (s : Counting pw Tid) : CountAct Tid → Option (Counting pw Tid)
  | .machine act => if act.GivesUp caller then (s.machine.next act).map s.note else none
  | .call =>
      match s.phase with
      | .before => some { s with phase := .sharedLoad, totals := [total s.machine.strong] }
      | _ => none
  | .load => s.load caller

/-- Start states: the counts agree with the handles, and the caller has one. -/
structure Start (caller : Tid) (s : Counting pw Tid) : Prop where
  agrees : s.machine.Agrees
  holds : 1 ≤ s.machine.strong caller
  phase : s.phase = .before

def system (pw : PointerWidth) (Tid : Type) [DecidableEq Tid] [Fintype Tid] (caller : Tid) :
    Transition.System (Counting pw Tid) (CountAct Tid) :=
  ofNext (Start caller) (next caller)

/-- The result is the number of handles, or a bound for it, at some moment of the call. -/
def Sound (s : Counting pw Tid) : Prop :=
  match s.phase with
  | .returned (.ok count) => count ∈ s.totals
  | .returned (.error lowerBound) => ∃ n ∈ s.totals, lowerBound ≤ n
  | _ => True

/-- No `explicit_merge` clears the owner between the loads of a caller without an id,
    unless the word it has loaded is merged. -/
def Undisturbed (caller : Tid) (s : Counting pw Tid) : CountAct Tid → Prop
  | .machine (.advance t _) => s.phase.sawUnmerged = true → s.machine.shortId caller = none →
      (s.machine.pc t).unbiases = false
  | _ => True

instance (caller : Tid) (s : Counting pw Tid) (act : CountAct Tid) :
    Decidable (s.Undisturbed caller act) := by
  unfold Undisturbed
  split <;> infer_instance

/-- What a call that has loaded an unmerged word knows. -/
structure Seen (caller : Tid) (shared : SharedWord pw) (s : Counting pw Tid) : Prop where
  bound : ∃ n ∈ s.totals, shared.sharedCount.value ≤ n
  unowned : s.machine.header.biased.ownerId = none → s.machine.header.biased = .unowned
  mine : s.machine.Owns caller →
    ∃ n ∈ s.totals, (n : Int) = s.machine.header.biased.biasedCount.toNat + shared.sharedCount.value
  /-- The count falls, and every number of handles it falls through has been noted. -/
  falling : s.machine.header.shared.merged = false →
    s.machine.header.shared.sharedCount.value ≤ shared.sharedCount.value ∧
      ∀ n : Nat, total s.machine.strong ≤ n → (n : Int) ≤ shared.sharedCount.value + 1 → n ∈ s.totals
  settled : s.machine.header.shared.merged = true → s.machine.shortId caller = none →
    (∃ n ∈ s.totals, (n : Int) = shared.sharedCount.value) ∨
      ∃ t new, s.machine.pc t = .mergeRelease new

/-- The invariant. -/
structure Inv (caller : Tid) (s : Counting pw Tid) : Prop where
  inv : s.machine.Inv
  makes : ∀ t, ¬ Machine.Makes (s.machine.pc t)
  noted : s.phase.running = true → total s.machine.strong ∈ s.totals
  merged : ∀ shared, s.phase = .biasedLoad shared → shared.merged = true →
    ∃ n ∈ s.totals, (n : Int) = shared.sharedCount.value
  seen : ∀ shared, s.phase = .biasedLoad shared → shared.merged = false → s.Seen caller shared
  sound : s.Sound

section Note

variable {s : Counting pw Tid} {m' : Machine pw Tid}

omit [DecidableEq Tid] in
theorem totals_note (running : s.phase.running = true) :
    (s.note m').totals = s.totals ++ [total m'.strong] := if_pos running

omit [DecidableEq Tid] in
theorem mem_totals_note {n : Nat} (noted : n ∈ s.totals) : n ∈ (s.note m').totals := by
  simp only [note]
  split
  · exact List.mem_append_left _ noted
  · exact noted

omit [DecidableEq Tid] in
theorem current_mem_note (running : s.phase.running = true) :
    total m'.strong ∈ (s.note m').totals := by
  rw [totals_note running]
  exact List.mem_append_right _ (.head _)

end Note

namespace Seen

variable {caller t : Tid} {shared : SharedWord pw} {s : Counting pw Tid} {m' : Machine pw Tid}

section

-- What a step has to keep of the shared count and of the handles.
variable (falling : m'.header.shared.merged = false → s.machine.header.shared.merged = false ∧
    m'.header.shared.sharedCount.value ≤ s.machine.header.shared.sharedCount.value ∧
    (total m'.strong = total s.machine.strong ∨ total m'.strong + 1 = total s.machine.strong))
  (settled : m'.header.shared.merged = true → s.machine.shortId caller = none →
    (∃ n ∈ (s.note m').totals, (n : Int) = shared.sharedCount.value) ∨
      ∃ t new, m'.pc t = .mergeRelease new)

include falling settled

omit [DecidableEq Tid] in
theorem step (seen : s.Seen caller shared) (running : s.phase.running = true)
    (id : m'.shortId caller = s.machine.shortId caller)
    (unowned : m'.header.biased.ownerId = none →
      m'.header.biased = s.machine.header.biased ∨ m'.header.biased = .unowned)
    (mine : m'.Owns caller → m'.header.biased = s.machine.header.biased) :
    (s.note m').Seen caller shared where
  bound := by
    obtain ⟨n, noted, bound⟩ := seen.bound
    exact ⟨n, mem_totals_note noted, bound⟩
  unowned := by
    intro none
    rcases unowned none with same | unowned
    · have same : (s.note m').machine.header.biased = s.machine.header.biased := same
      rw [same] at none ⊢
      exact seen.unowned none
    · exact unowned
  mine := by
    intro owns
    have same := mine owns
    obtain ⟨owner, owned, mine⟩ := owns
    obtain ⟨n, noted, sum⟩ := seen.mine ⟨owner, same ▸ owned, id ▸ mine⟩
    refine ⟨n, mem_totals_note noted, ?_⟩
    simpa only [note, same] using sum
  falling := by
    intro unmerged
    obtain ⟨unmerged, le, fewer⟩ := falling unmerged
    obtain ⟨le', through⟩ := seen.falling unmerged
    refine ⟨le.trans le', fun n above below => ?_⟩
    have above : total m'.strong ≤ n := above
    rcases Nat.eq_or_lt_of_le above with same | more
    · exact same ▸ current_mem_note running
    · exact mem_totals_note (through n (by omega) below)
  settled := fun merged noId => settled merged (id ▸ noId)

omit [DecidableEq Tid] in
/-- A step that leaves the biased word. -/
theorem stepShared (seen : s.Seen caller shared) (running : s.phase.running = true)
    (id : m'.shortId caller = s.machine.shortId caller)
    (biased : m'.header.biased = s.machine.header.biased) : (s.note m').Seen caller shared :=
  seen.step falling settled running id (fun _ => .inl biased) fun _ => biased

end

omit [DecidableEq Tid] in
/-- A step that leaves the header and all strong handles. -/
theorem kept (seen : s.Seen caller shared) (running : s.phase.running = true)
    (header : m'.header = s.machine.header) (same : total m'.strong = total s.machine.strong)
    (id : m'.shortId caller = s.machine.shortId caller)
    (releasing : ∀ t new, s.machine.pc t = .mergeRelease new → m'.pc t = .mergeRelease new) :
    (s.note m').Seen caller shared := by
  refine seen.stepShared ?_ ?_ running id (by rw [header])
  · rw [header]
    exact fun unmerged => ⟨unmerged, Int.le_refl _, .inl same⟩
  · rw [header]
    intro merged noId
    rcases seen.settled merged noId with ⟨n, noted, value⟩ | ⟨t, new, pc⟩
    · exact .inl ⟨n, mem_totals_note noted, value⟩
    · exact .inr ⟨t, new, releasing t new pc⟩

/-- An access of another thread. -/
theorem shrink (seen : s.Seen caller shared) (inv : s.machine.Inv) (inv' : m'.Inv)
    (running : s.phase.running = true) (frame : s.machine.Frame t m')
    (shrink : s.machine.Shrink t m') (other : t ≠ caller)
    (undisturbed : s.machine.shortId caller = none → ∀ new, s.machine.pc t ≠ .mergeRelease new) :
    (s.note m').Seen caller shared := by
  have claims := inv.claims t
  have coherent := inv.coherent t
  have id : m'.shortId caller = s.machine.shortId caller := congrFun frame.shortId caller
  have fewer (holds : (s.machine.pc t).holdsStrong = true)
      (strong : m'.strong = lower s.machine.strong t) :
      total m'.strong + 1 = total s.machine.strong := by
    rw [strong]
    exact total_lower (inv.strongHeld t holds)
  -- What was settled before the step stays so.
  have stays (merged : s.machine.header.shared.merged = true) (noId : s.machine.shortId caller = none) :
      (∃ n ∈ (s.note m').totals, (n : Int) = shared.sharedCount.value) ∨
        ∃ t new, m'.pc t = .mergeRelease new := by
    rcases seen.settled merged noId with ⟨n, noted, value⟩ | ⟨t', new, pc⟩
    · exact .inl ⟨n, mem_totals_note noted, value⟩
    · have elsewhere : t' ≠ t := by
        rintro rfl
        exact undisturbed noId new pc
      exact .inr ⟨t', new, (frame.pc t' elsewhere).trans pc⟩
  cases shrink with
  | quiet before header strong =>
      refine seen.stepShared ?_ ?_ running id (by rw [header])
      · rw [header, strong]
        exact fun unmerged => ⟨unmerged, Int.le_refl _, .inl rfl⟩
      · rw [header]
        exact stays
  | store call header strong =>
      rw [call] at claims
      obtain ⟨unmerged, stored⟩ := claims
      obtain ⟨owner, owned, positive, _⟩ := inv.owned unmerged
      have sameOwner := (BiasedWord.decrementBiased_eq_store stored positive).1
      have controls : s.machine.Controls t (s.machine.pc t) :=
        Machine.Inv.controls_of_decrement (by rw [stored]; nofun)
      refine seen.step ?_ ?_ running id ?_ ?_
      · rw [header, RawBrcHeader.shared_storeBiased]
        exact fun unmerged => ⟨unmerged, Int.le_refl _, .inr (fewer (by rw [call]; rfl) strong)⟩
      · rw [header, RawBrcHeader.shared_storeBiased]
        exact stays
      · simp only [header, RawBrcHeader.biased_storeBiased, sameOwner, owned]
        nofun
      · rintro ⟨owner', owned', mine⟩
        rw [header, RawBrcHeader.biased_storeBiased, sameOwner] at owned'
        have mine : s.machine.Controls caller (s.machine.pc caller) :=
          Machine.Owns.controls ⟨owner', owned', id ▸ mine⟩ _
        exact absurd (inv.controls_unique controls mine) other
  | decrement call header strong =>
      rw [call] at coherent
      obtain ⟨count, merged, _⟩ := SharedWord.decremented_eq_ok coherent
      refine seen.stepShared ?_ ?_ running id (header ▸ rfl)
      · rw [header, RawBrcHeader.shared_storeShared, merged]
        exact fun unmerged => ⟨unmerged, by omega, .inr (fewer (by rw [call]; rfl) strong)⟩
      · rw [header, RawBrcHeader.shared_storeShared, merged]
        exact stays
  | slow call header strong =>
      rw [call] at claims
      have unmerged := claims.1
      have less := fewer (by rw [call]; rfl) strong
      refine seen.stepShared ?_ ?_ running id (header ▸ rfl)
      · rw [header, RawBrcHeader.shared_fetchOrMerged]
        nofun
      · intro merged _
        -- The merge gives a handle up: the count that is left has been fallen through.
        have count := inv'.merged merged
        rw [header, RawBrcHeader.shared_fetchOrMerged] at count
        have count : s.machine.header.shared.sharedCount.value = total m'.strong := count
        obtain ⟨le, through⟩ := seen.falling unmerged
        have value : ((shared.sharedCount.value.toNat : Nat) : Int) = shared.sharedCount.value :=
          Int.toNat_of_nonneg (by omega)
        refine .inl ⟨shared.sharedCount.value.toNat, ?_, value⟩
        rcases Nat.eq_or_lt_of_le (show total m'.strong ≤ shared.sharedCount.value.toNat by omega)
          with same | more
        · exact same ▸ current_mem_note running
        · exact mem_totals_note (through _ (by omega) (by omega))
  | merge call header strong after =>
      rw [call] at coherent
      have merged := (SharedWord.mergedWith_eq_ok coherent).2.2.1
      refine seen.stepShared ?_ ?_ running id (header ▸ rfl)
      · rw [header, RawBrcHeader.shared_storeShared, merged]
        nofun
      · exact fun _ _ => .inr ⟨t, _, after⟩
  | release call header strong =>
      refine seen.step ?_ ?_ running id ?_ ?_
      · rw [header, RawBrcHeader.shared_storeBiased, strong]
        exact fun unmerged => ⟨unmerged, Int.le_refl _, .inl rfl⟩
      · rw [header, RawBrcHeader.shared_storeBiased]
        exact stays
      · rw [header, RawBrcHeader.biased_storeBiased]
        exact fun _ => .inr rfl
      · rintro ⟨owner, owned, _⟩
        rw [header, RawBrcHeader.biased_storeBiased] at owned
        cases owned

end Seen

namespace Inv

variable {caller : Tid} {s s' : Counting pw Tid}

omit [DecidableEq Tid] in
/-- A step of the machine, with what it does to a call that has loaded an unmerged word. -/
theorem note (inv : Inv caller s) {m' : Machine pw Tid} (inv' : m'.Inv)
    (makes : ∀ t, ¬ Machine.Makes (m'.pc t))
    (seen : ∀ shared, s.phase = .biasedLoad shared → shared.merged = false →
      s.Seen caller shared → (s.note m').Seen caller shared) : Inv caller (s.note m') where
  inv := inv'
  makes := makes
  noted running := current_mem_note (s := s) running
  merged := by
    intro shared loaded merged
    obtain ⟨n, noted, value⟩ := inv.merged shared loaded merged
    exact ⟨n, mem_totals_note noted, value⟩
  seen := fun shared loaded unmerged => seen shared loaded unmerged (inv.seen shared loaded unmerged)
  sound := by
    have sound := inv.sound
    unfold Sound at sound ⊢
    cases phase : s.phase with
    | returned result =>
        have silent : (s.note m').totals = s.totals := if_neg (by rw [phase]; nofun)
        have same : (s.note m').phase = .returned result := phase
        rw [phase] at sound
        rw [same, silent]
        exact sound
    | before | sharedLoad | biasedLoad =>
        have same : (s.note m').phase = s.phase := rfl
        rw [same, phase]
        trivial

section

omit [DecidableEq Tid]

theorem call (inv : Inv caller s) :
    Inv caller { s with phase := .sharedLoad, totals := [total s.machine.strong] } where
  inv := inv.inv
  makes := inv.makes
  noted _ := .head _
  merged := nofun
  seen := nofun
  sound := trivial

/-- The load of the shared word. -/
theorem sharedLoad (inv : Inv caller s) (phase : s.phase = .sharedLoad) :
    Inv caller { s with phase := .biasedLoad s.machine.header.shared } where
  inv := inv.inv
  makes := inv.makes
  noted _ := inv.noted (by rw [phase]; rfl)
  merged := by
    rintro shared loaded merged
    cases loaded
    exact ⟨_, inv.noted (by rw [phase]; rfl), (inv.inv.merged merged).symm⟩
  seen := by
    rintro shared loaded unmerged
    cases loaded
    have noted := inv.noted (by rw [phase]; rfl)
    obtain ⟨id, owned, positive, split⟩ := inv.inv.owned unmerged
    exact {
      bound := ⟨_, noted, by omega⟩
      unowned := fun none => absurd (none.symm.trans owned) nofun
      mine := fun _ => ⟨_, noted, split.symm⟩
      falling := by
        refine fun _ => ⟨Int.le_refl _, fun n above below => ?_⟩
        have above : total s.machine.strong ≤ n := above
        have same : n = total s.machine.strong := by omega
        exact same ▸ noted
      settled := fun merged => absurd (unmerged.symm.trans merged) nofun }
  sound := trivial

/-- The load of the biased word, and the result. -/
theorem biasedLoad (inv : Inv caller s) {shared : SharedWord pw} (phase : s.phase = .biasedLoad shared) :
    Inv caller { s with
      phase := .returned (RawBrcHeader.strongCount (s.machine.shortId caller) shared
        s.machine.header.biased) } where
  inv := inv.inv
  makes := inv.makes
  noted := nofun
  merged := nofun
  seen := nofun
  sound := by
    cases merged : shared.merged with
    | true =>
        obtain ⟨n, noted, value⟩ := inv.merged shared phase merged
        simp only [Sound, RawBrcHeader.strongCount_of_merged merged value.symm]
        exact noted
    | false =>
        have seen := inv.seen shared phase merged
        by_cases owner : s.machine.header.biased.ownerId = s.machine.shortId caller
        · obtain ⟨n, noted, sum⟩ : ∃ n ∈ s.totals, (n : Int) =
              s.machine.header.biased.biasedCount.toNat + shared.sharedCount.value := by
            cases mine : s.machine.shortId caller with
            | some id => exact seen.mine ⟨id, owner.trans mine, mine⟩
            | none =>
                have none := owner.trans mine
                have now : s.machine.header.shared.merged = true := by
                  by_contra unmerged
                  obtain ⟨id, owned, _⟩ := inv.inv.owned (Bool.eq_false_iff.mpr unmerged)
                  cases none.symm.trans owned
                rcases seen.settled now mine with ⟨n, noted, value⟩ | ⟨t, new, pc⟩
                · refine ⟨n, noted, ?_⟩
                  rw [seen.unowned none, value]
                  exact (Int.zero_add _).symm
                · have claims := inv.inv.claims t
                  rw [pc] at claims
                  obtain ⟨_, id, owned, _⟩ := claims
                  cases none.symm.trans owned
          simp only [Sound, RawBrcHeader.strongCount_of_owner merged owner sum.symm]
          exact noted
        · obtain ⟨n, noted, bound⟩ := seen.bound
          simp only [Sound, RawBrcHeader.strongCount, merged, Bool.false_eq_true, if_false, owner]
          exact ⟨n, noted, by omega⟩

end

/-- A step of the other threads. -/
theorem machine (inv : Inv caller s) {act : Act Tid} {m' : Machine pw Tid}
    (undisturbed : s.Undisturbed caller (.machine act)) (givesUp : act.GivesUp caller)
    (taken : s.machine.next act = some m') : Inv caller (s.note m') := by
  have quiet : s.machine.NoCarry act := by
    cases act with
    | advance t spurious => exact fun pc => absurd (.inl (by rw [pc]; rfl)) (inv.makes t)
    | _ => trivial
  have inv' := inv.inv.next quiet taken
  have running {shared} (loaded : s.phase = .biasedLoad shared) : s.phase.running = true := by
    rw [loaded]
    rfl
  -- A thread that was idle is at no release.
  have idleKept {t : Tid} {pc : Pc pw} (idle : s.machine.pc t = .idle) (t' : Tid) (new : SharedWord pw)
      (releasing : s.machine.pc t' = .mergeRelease new) :
      Function.update s.machine.pc t pc t' = .mergeRelease new := by
    have other : t' ≠ t := by
      rintro rfl
      cases idle.symm.trans releasing
    exact (Function.update_of_ne other ..).trans releasing
  have makesAt {t : Tid} {pc : Pc pw} (makes : ¬ Machine.Makes pc) (t' : Tid) :
      ¬ Machine.Makes (Function.update s.machine.pc t pc t') := by
    by_cases own : t' = t
    · rw [own, Function.update_self]
      exact makes
    · rw [Function.update_of_ne own]
      exact inv.makes t'
  cases Machine.step_of_next taken with
  | @start t op idle _ =>
      refine inv.note inv' (makesAt ?_) fun shared loaded _ seen =>
        seen.kept (running loaded) rfl rfl rfl (idleKept idle)
      obtain ⟨_, clone, cloneShared, upgrade⟩ := givesUp
      cases op with
      | clone | cloneShared | upgrade => contradiction
      | _ => simp [Machine.Makes, Op.entryPoint, Pc.call]
  | @advance t spurious _ _ returned =>
      have frame := Machine.advance_frame returned
      have shrink := Machine.advance_shrink (inv.makes t) returned
      refine inv.note inv' ?_ fun shared loaded unmerged seen =>
        seen.shrink inv.inv inv' (running loaded) frame shrink givesUp
          fun noId new pc => by
            have clear := undisturbed (by simp [loaded, CountPhase.sawUnmerged, unmerged]) noId
            rw [pc] at clear
            cases clear
      intro t'
      by_cases own : t' = t
      · subst own
        rcases frame.call with idle | same
        · simp [Machine.Makes, idle, Pc.call]
        · rw [Machine.Makes, same]
          exact inv.makes t'
      · rw [frame.pc t' own]
        exact inv.makes t'
  | merge _ idle _ =>
      exact inv.note inv' (makesAt (by simp [Machine.Makes, Pc.call])) fun shared loaded _ seen =>
        seen.kept (running loaded) rfl rfl rfl (idleKept idle)
  | die _ =>
      exact inv.note inv' inv.makes fun shared loaded _ seen =>
        seen.kept (running loaded) rfl rfl (Function.update_of_ne (Ne.symm givesUp) ..)
          fun _ _ => id
  | @send source target _ holds =>
      have same : total (raise (lower s.machine.strong source) target) = total s.machine.strong := by
        rw [total_raise, total_lower holds]
      exact inv.note inv' inv.makes fun shared loaded _ seen =>
        seen.kept (running loaded) rfl same rfl fun _ _ => id
  | sendWeak =>
      exact inv.note inv' inv.makes fun shared loaded _ seen =>
        seen.kept (running loaded) rfl rfl rfl fun _ _ => id

theorem next (inv : Inv caller s) {act : CountAct Tid} (undisturbed : s.Undisturbed caller act)
    (taken : s.next caller act = some s') : Inv caller s' := by
  cases act with
  | machine act =>
      simp only [Counting.next, Option.ite_none_right_eq_some, Option.map_eq_some_iff] at taken
      obtain ⟨givesUp, m', taken, rfl⟩ := taken
      exact inv.machine undisturbed givesUp taken
  | call =>
      simp only [Counting.next] at taken
      split at taken
      · cases taken
        exact inv.call
      · cases taken
  | load =>
      simp only [Counting.next, load] at taken
      split at taken
      · cases taken
        exact inv.sharedLoad ‹_›
      · cases taken
        exact inv.biasedLoad ‹_›
      all_goals cases taken

end Inv

omit [DecidableEq Tid] in
theorem Start.inv {caller : Tid} {s : Counting pw Tid} (start : s.Start caller) : Inv caller s where
  inv := start.agrees.inv
  makes := by
    intro t
    rw [start.agrees.idle t]
    simp [Machine.Makes, Pc.call]
  noted := by rw [start.phase]; rintro ⟨⟩
  merged := by rw [start.phase]; simp
  seen := by rw [start.phase]; simp
  sound := by rw [Sound, start.phase]; trivial

/-- In a run in which no `explicit_merge` disturbs a caller without an id, the result
    is right. -/
theorem strong_count_sound {caller : Tid} {s : Counting pw Tid}
    (reached : ((system pw Tid caller).restrict (Undisturbed caller)).Reachable s) : s.Sound :=
  (reached.invariant (P := Inv caller) (fun _ start => start.inv)
    fun _ _ _ inv taken => inv.next taken.1 taken.2).sound

/-- `owner` owns the object, and another thread has a handle and no id. An earlier decrement
    has queued the object. -/
def beforeCount (owner : Tid) (biased : BiasedCount) : Counting .w64 Tid where
  machine :=
    { Machine.quiet owner
        ⟨SharedWord.toRaw ⟨.ofInt 1, false, true⟩, BiasedWord.toRaw ⟨some .first, biased⟩⟩ 1
        (fun t => if t = owner then biased.toNat else 1) fun _ => 0 with
      entry := some .first }
  phase := .before
  totals := []

theorem start_beforeCount {biased : BiasedCount} (few : biased = 1 ∨ biased = 2) :
    (beforeCount (0 : Fin 2) biased).Start 1 where
  agrees := by
    rcases few with rfl | rfl <;>
      exact .of_unmerged (by decide) (by decide) (by decide) (by decide) (fun _ => rfl) rfl
        (by decide) rfl rfl
  holds := Nat.le_refl 1
  phase := rfl

/-- The owner gives up its last handle between the two loads. -/
theorem strong_count_sound_after_merge : ∃ s : Counting .w64 (Fin 2),
    s.totals = [2, 2, 2, 1, 1] ∧ s.Sound := by
  obtain ⟨s, reached, ends⟩ := Reachable.of_replay
    (.start (start_beforeCount (.inl rfl)) :
      ((system .w64 (Fin 2) 1).restrict (Undisturbed 1)).Reachable (beforeCount 0 1))
    [.call, .load, .machine (.start 0 .drop), .machine (.advance 0 false),
      .machine (.advance 0 false), .machine (.advance 0 false), .load]
    (fun s => s.totals = [2, 2, 2, 1, 1]) (by decide +kernel)
  exact ⟨s, ends, strong_count_sound reached⟩

/-- The owner runs `explicit_merge` between the two loads. -/
theorem strong_count_unsound : ¬ ∀ s : Counting .w64 (Fin 2),
    (system .w64 (Fin 2) 1).Reachable s → s.Sound := by
  intro claim
  obtain ⟨s, reached, ends⟩ := Reachable.of_replay
    (.start (start_beforeCount (.inr rfl)) :
      ((system .w64 (Fin 2) 1).restrict fun _ _ => True).Reachable (beforeCount 0 2))
    [.call, .load, .machine (.merge 0), .machine (.advance 0 false), .machine (.advance 0 false),
      .machine (.advance 0 false), .machine (.advance 0 false), .load]
    (fun s => s.totals = [3, 3, 3, 3, 3, 3] ∧ (s.phase matches .returned (.ok 1)) = true)
    (by decide +kernel)
  have sound := claim s reached.of_restrict
  obtain ⟨totals, phase⟩ := ends
  unfold Sound at sound
  split at phase
  · rename_i returned
    rw [returned, totals] at sound
    revert sound
    decide
  · cases phase

end Counting

end BiasedRc
