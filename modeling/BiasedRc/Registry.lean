import BiasedRc.World

/-! # The registry of threads

`init_thread` and the destructor of the thread local, one access a step, by any
number of threads. An id comes from the index of a pushed entry, by way of two
conversions, and the flag that ids are exhausted is checked before the push but
set within it. The thread locals are left at different times: the slot of
`THIS_THREAD_STATE` is marked before its destructor runs, and may be initialized
once more afterwards.
-/

namespace BiasedRc

open Transition System

/-- `UniqueThreadId(NonZeroUsize)`. -/
structure UniqueThreadId where
  value : Nat
  nonzero : value ≠ 0
  deriving DecidableEq

/-- `UniqueThreadId::from_index`; `none` is its failed `expect`. -/
def UniqueThreadId.fromIndex (pw : PointerWidth) (index : Nat) : Option UniqueThreadId :=
  if index + 1 < 2 ^ pw.usizeBits then some ⟨index + 1, Nat.succ_ne_zero index⟩ else none

/-- `ShortThreadId::try_from(UniqueThreadId)`, by way of `NonZeroU16`. -/
def ShortThreadId.tryFrom (id : UniqueThreadId) : Option ShortThreadId :=
  if id.value < 2 ^ 16 then
    if h : id.value ≤ 4095 then
      some ⟨BitVec.ofNat 12 id.value, fun zero => by
        have := congrArg BitVec.toNat zero
        have := id.nonzero
        simp only [BitVec.ofNat_eq_ofNat, BitVec.toNat_ofNat] at *
        omega⟩
    else none
  else none

/-- The two conversions together are those of the world of uninterrupted calls. -/
theorem ShortThreadId.tryFrom_fromIndex {pw : PointerWidth} {index : Nat} {id : UniqueThreadId}
    (converted : UniqueThreadId.fromIndex pw index = some id) : tryFrom id = ofIndex index := by
  simp only [UniqueThreadId.fromIndex, Option.ite_none_right_eq_some, Option.some.injEq] at converted
  obtain ⟨_, rfl⟩ := converted
  by_cases small : index + 1 ≤ 4095
  · simp only [tryFrom, ofIndex, small, dif_pos, show index + 1 < 2 ^ 16 by omega, if_true]
  · simp only [tryFrom, ofIndex, small, dif_neg, not_false_eq_true, ite_self]

inductive LocalThreadAccessError where
  | uninitialized
  | dead
  | idOverflow
  deriving DecidableEq

/-- `existing_short_id`; `none` is its `unreachable_unchecked`. -/
def LocalThreadStateFast.existing (fast : LocalThreadStateFast) :
    Option (Except LocalThreadAccessError ShortThreadId) :=
  match fast.status, fast.shortId with
  | .uninit, none => some (.error .uninitialized)
  | .deadOrDying, none => some (.error .dead)
  | .active, some id => some (.ok id)
  | _, some _ | .active, none => none

inductive ThreadStateInitError where
  | alreadyDied
  | idOverflow
  deriving DecidableEq

namespace Registry

/-- A `SharedThreadInfo`, with the thread that made its queue for the queue. -/
structure Info (Tid : Type) where
  id : UniqueThreadId
  shortId : ShortThreadId
  stateFlag : ThreadStateFlag
  queue : Tid
  deriving DecidableEq

/-- A `LocalThreadState`; `shared_info` points to the entry with this index. -/
structure LocalThreadState (Tid : Type) where
  sharedInfo : Nat
  shortId : ShortThreadId
  queue : Tid
  deriving DecidableEq

/-- The slot of `THIS_THREAD_STATE`. -/
inductive Slot (Tid : Type) where
  | untouched
  | ready (state : Except ThreadStateInitError (LocalThreadState Tid))
  | destroyed

/-- The next access of `init_thread`. -/
inductive InitPc (Tid : Type) where
  | outside
  | readStatus
  | loadExhausted
  | reserve
  /-- The closure of `push_with`. -/
  | convert (index : Nat)
  | storeExhausted (index : Nat)
  | publish (index : Nat) (entry : Option (Info Tid))
  | readEntry (index : Nat)
  | setFast (index : Nat)
  | finish (result : Except ThreadStateInitError (LocalThreadState Tid))

/-- The next access of `Drop for LocalThreadState`, once it has changed the thread locals. -/
inductive DeathPc (Tid : Type) where
  | none
  | swapDying (state : LocalThreadState Tid)
  | dropQueue (state : LocalThreadState Tid)
  | switchDead (state : LocalThreadState Tid)

/-- What belongs to one thread. `stateFlag` is the entry that `shared_state_flag` points
    into, with `none` for the dummy. -/
structure Locals (Tid : Type) where
  fast : LocalThreadStateFast
  stateFlag : Option Nat
  slot : Slot Tid
  init : InitPc Tid
  /-- `init_thread` was entered from `RawBrcHeader::init`. -/
  forHeader : Bool
  death : DeathPc Tid

/-- What all threads share, and the ids that have been handed out. -/
structure Shared (Tid : Type) where
  threads : Nat → Option (Option (Info Tid))
  /-- The thread whose push got the index. -/
  pusher : Nat → Option Tid
  exhausted : Bool
  obtained : List (Tid × ShortThreadId)

/-- A return of `RawBrcHeader::init`, with the status of the thread at that moment. -/
structure Creation (pw : PointerWidth) (Tid : Type) where
  thread : Tid
  status : LocalThreadStatus
  header : RawBrcHeader pw

/-- The assertions and panics. -/
inductive Fault where
  | tooManyThreads
  | alreadyInitialized
  | missingEntry
  | staleLocals
  | notActive
  | notLive
  | notDying
  | unreachable
  deriving DecidableEq

end Registry

open Registry in
/-- The registry and the threads' own parts. -/
structure Registry (pw : PointerWidth) (Tid : Type) where
  shared : Shared Tid
  locals : Tid → Locals Tid
  created : List (Creation pw Tid)
  fault : Option Registry.Fault

/-- The steps. `reinit` says whether a destroyed slot can be initialized again, and `index`
    is what a push gets. -/
inductive RegistryAct (Tid : Type) where
  | withCurrent (t : Tid) (reinit : Bool)
  | initHeader (t : Tid) (reinit : Bool)
  | initThread (t : Tid) (index : Nat)
  | exit (t : Tid)
  | die (t : Tid)
  /-- The flag of an entry is changed by `queue_object` and by `collect_force`. -/
  | markQueued (index : Nat)
  | markLive (index : Nat)
  deriving DecidableEq

namespace Registry

variable {pw : PointerWidth} {Tid : Type}

def Locals.initial : Locals Tid where
  fast := ⟨.uninit, none⟩
  stateFlag := none
  slot := .untouched
  init := .outside
  forHeader := false
  death := .none

def initial : Registry pw Tid where
  shared := ⟨fun _ => none, fun _ => none, false, []⟩
  locals := fun _ => .initial
  created := []
  fault := none

/-- `SharedThreadInfo::get_by_id`. -/
def getById (s : Registry pw Tid) (id : ShortThreadId) : Option (Info Tid) :=
  (s.shared.threads id.index).join

def put [DecidableEq Tid] (s : Registry pw Tid) (t : Tid) (l : Locals Tid) : Registry pw Tid :=
  { s with locals := Function.update s.locals t l }

def share (s : Registry pw Tid) (shared : Shared Tid) : Registry pw Tid := { s with shared }

def fail (s : Registry pw Tid) (fault : Fault) : Registry pw Tid := { s with fault := some fault }

/-- `RawBrcHeader::init` returns. -/
def create (s : Registry pw Tid) (t : Tid) (id : Option ShortThreadId) : Registry pw Tid :=
  { s with created := s.created ++ [⟨t, (s.locals t).fast.status, .init id⟩] }

def Shared.setEntry (sh : Shared Tid) (index : Nat) (entry : Option (Info Tid)) : Shared Tid :=
  { sh with threads := Function.update sh.threads index (some entry) }

/-- An update of the flag of an entry. -/
def Shared.setFlag (sh : Shared Tid) (index : Nat) (update : ThreadStateFlag → ThreadStateFlag) :
    Shared Tid :=
  match sh.threads index with
  | some (some info) => sh.setEntry index (some { info with stateFlag := update info.stateFlag })
  | _ => sh

/-- The state flag of an entry. -/
def Shared.flagOf (sh : Shared Tid) (index : Nat) : Option ThreadStateFlag :=
  (sh.threads index).join.map Info.stateFlag

/-- `push_with` has got an index. -/
def Shared.reserve (sh : Shared Tid) (t : Tid) (index : Nat) : Shared Tid :=
  { sh with pusher := Function.update sh.pusher index (some t) }

/-- Enter `init_thread`. -/
def enter [DecidableEq Tid] (s : Registry pw Tid) (t : Tid) (forHeader : Bool) : Registry pw Tid :=
  s.put t { s.locals t with init := .readStatus, forHeader }

/-- `LocalThreadState::with_current`, up to its closure. -/
def withCurrent [DecidableEq Tid] (s : Registry pw Tid) (t : Tid) (reinit : Bool) :
    Registry pw Tid :=
  match (s.locals t).slot with
  | .untouched => s.enter t false
  | .ready _ => s
  | .destroyed => if reinit then s.enter t false else s

/-- `RawBrcHeader::init`, up to `init_thread` where that runs. -/
def initHeader [DecidableEq Tid] (s : Registry pw Tid) (t : Tid) (reinit : Bool) :
    Registry pw Tid :=
  match (s.locals t).fast.existing with
  | none => s.fail .unreachable
  | some (.ok id) => s.create t (some id)
  | some (.error .dead) | some (.error .idOverflow) => s.create t none
  | some (.error .uninitialized) =>
      -- `init_tid`
      match (s.locals t).slot with
      | .untouched => s.enter t true
      | .ready (.ok state) => s.create t (some state.shortId)
      | .ready (.error _) => s.create t none
      | .destroyed => if reinit then s.enter t true else s.create t none

/-- The next access of `init_thread`. -/
def initThread [DecidableEq Tid] (s : Registry pw Tid) (t : Tid) (index : Nat) : Option
    (Registry pw Tid) :=
  let l := s.locals t
  match l.init with
  | .outside => none
  | .readStatus =>
      match l.fast.status with
      | .deadOrDying => some (s.put t { l with init := .finish (.error .alreadyDied) })
      | .uninit => some (s.put t { l with init := .loadExhausted })
      | .active => some (s.fail .alreadyInitialized)
  | .loadExhausted =>
      if s.shared.exhausted then some (s.put t { l with init := .finish (.error .idOverflow) })
      else some (s.put t { l with init := .reserve })
  | .reserve =>
      if s.shared.pusher index = none then
        some ((s.share (s.shared.reserve t index)).put t { l with init := .convert index })
      else none
  | .convert index =>
      match UniqueThreadId.fromIndex pw index with
      | none => some (s.fail .tooManyThreads)
      | some id =>
          match ShortThreadId.tryFrom id with
          | some shortId =>
              some (s.put t { l with init := .publish index (some ⟨id, shortId, .live, t⟩) })
          | none => some (s.put t { l with init := .storeExhausted index })
  | .storeExhausted index =>
      some ((s.share { s.shared with exhausted := true }).put t { l with init := .publish index none })
  | .publish index entry =>
      some ((s.share (s.shared.setEntry index entry)).put t { l with init := .readEntry index })
  | .readEntry index =>
      match s.shared.threads index with
      | none => some (s.fail .missingEntry)
      | some none => some (s.put t { l with init := .finish (.error .idOverflow) })
      | some (some _) => some (s.put t { l with init := .setFast index })
  | .setFast index =>
      match s.shared.threads index with
      | some (some info) =>
          if l.stateFlag = none ∧ l.fast = ⟨.uninit, none⟩ then
            some ((s.share { s.shared with
              obtained := s.shared.obtained ++ [(t, info.shortId)] }).put t { l with
                fast := ⟨.active, some info.shortId⟩
                stateFlag := some index
                init := .finish (.ok ⟨index, info.shortId, t⟩) })
          else some (s.fail .staleLocals)
      | _ => some (s.fail .missingEntry)
  | .finish result =>
      let s' := s.put t { l with slot := .ready result, init := .outside, forHeader := false }
      some (if l.forHeader then s'.create t (result.toOption.map (·.shortId)) else s')

/-- The thread exits and its slot is dropped. -/
def exit [DecidableEq Tid] (s : Registry pw Tid) (t : Tid) : Option (Registry pw Tid) :=
  let l := s.locals t
  match l.slot with
  | .untouched | .destroyed => none
  | .ready (.error _) => some (s.put t { l with slot := .destroyed })
  | .ready (.ok state) =>
      if l.fast = ⟨.active, some state.shortId⟩ then
        some (s.put t { l with
          fast := ⟨.deadOrDying, none⟩
          stateFlag := none
          slot := .destroyed
          death := .swapDying state })
      else some (s.fail .notActive)

/-- The rest of `Drop for LocalThreadState`. -/
def die [DecidableEq Tid] (s : Registry pw Tid) (t : Tid) : Option (Registry pw Tid) :=
  let l := s.locals t
  match l.death with
  | .none => none
  | .swapDying state =>
      if (s.shared.flagOf state.sharedInfo).any (·.isLive) then
        some ((s.share (s.shared.setFlag state.sharedInfo fun _ => .dying)).put t
          { l with death := .dropQueue state })
      else some (s.fail .notLive)
  | .dropQueue state => some (s.put t { l with death := .switchDead state })
  | .switchDead state =>
      if s.shared.flagOf state.sharedInfo = some .dying then
        some ((s.share (s.shared.setFlag state.sharedInfo fun _ => .dead)).put t
          { l with death := .none })
      else some (s.fail .notDying)

/-- The thread is not within `init_thread`. -/
def Outside (s : Registry pw Tid) (t : Tid) : Bool :=
  match (s.locals t).init with
  | .outside => true
  | _ => false

/-- The destructor of the thread's state is under way. -/
def Dying (s : Registry pw Tid) (t : Tid) : Bool :=
  match (s.locals t).death with
  | .none => false
  | _ => true

def next [DecidableEq Tid] (s : Registry pw Tid) (act : RegistryAct Tid) : Option
    (Registry pw Tid) :=
  if s.fault.isSome then none
  else
    match act with
    | .withCurrent t reinit => if s.Outside t then some (s.withCurrent t reinit) else none
    | .initHeader t reinit => if s.Outside t then some (s.initHeader t reinit) else none
    | .initThread t index => s.initThread t index
    | .exit t => if s.Outside t && !s.Dying t then s.exit t else none
    | .die t => if s.Outside t then s.die t else none
    | .markQueued index =>
        some (s.share (s.shared.setFlag index .markQueued))
    | .markLive index =>
        some (s.share (s.shared.setFlag index .markLive))

def system (pw : PointerWidth) (Tid : Type) [DecidableEq Tid] :
    System (Registry pw Tid) (RegistryAct Tid) :=
  ofNext (fun s => s = .initial) next

/-! ### What each thread relies on -/

/-- The slot does not hold the state of an active thread. -/
def Slot.vacant : Slot Tid → Prop
  | .ready (.ok _) => False
  | _ => True

/-- The id and the entry behind a local state are the thread's, with a flag as given. -/
def Shared.Owns (sh : Shared Tid) (t : Tid) (state : LocalThreadState Tid)
    (flag : ThreadStateFlag → Prop) : Prop :=
  state.shortId.index = state.sharedInfo ∧ state.queue = t ∧ (t, state.shortId) ∈ sh.obtained ∧
    ∃ info, sh.threads state.sharedInfo = some (some info) ∧ info.shortId = state.shortId ∧
      info.queue = t ∧ flag info.stateFlag

/-- The push of this index is the thread's, and its entry is still to be published. -/
def Shared.Reserved (sh : Shared Tid) (t : Tid) (index : Nat) : Prop :=
  sh.pusher index = some t ∧ sh.threads index = none

/-- `init_thread` before the thread locals are set. -/
def InitPc.Claims (sh : Shared Tid) (t : Tid) : InitPc Tid → Prop
  | .outside | .readStatus | .loadExhausted | .reserve | .finish (.error _) => True
  | .convert index | .storeExhausted index | .publish index none => sh.Reserved t index
  | .publish index (some info) => sh.Reserved t index ∧ info.shortId.index = index ∧
      info.queue = t ∧ info.stateFlag = .live
  | .readEntry index => sh.threads index = some none ∨
      ∃ info, sh.threads index = some (some info) ∧ info.queue = t ∧ info.stateFlag.isLive = true
  | .setFast index =>
      ∃ info, sh.threads index = some (some info) ∧ info.queue = t ∧ info.stateFlag.isLive = true
  | .finish (.ok _) => False

/-- `init_thread` of a thread that has died. -/
def InitPc.refused : InitPc Tid → Prop
  | .outside | .readStatus | .finish (.error _) => True
  | _ => False

def DeathPc.Claims (sh : Shared Tid) (t : Tid) : DeathPc Tid → Prop
  | .none => True
  | .swapDying state => sh.Owns t state (·.isLive = true)
  | .dropQueue state | .switchDead state => sh.Owns t state (· = .dying)

/-- The thread before, between and after the two changes of its fast thread local. -/
inductive Stage (sh : Shared Tid) (t : Tid) (l : Locals Tid) : Prop where
  | before (fast : l.fast = ⟨.uninit, none⟩) (flag : l.stateFlag = none) (vacant : l.slot.vacant)
      (init : l.init.Claims sh t) (death : l.death = .none) (never : ∀ id, (t, id) ∉ sh.obtained)
  | active (state : LocalThreadState Tid) (fast : l.fast = ⟨.active, some state.shortId⟩)
      (flag : l.stateFlag = some state.sharedInfo) (owns : sh.Owns t state (·.isLive = true))
      (death : l.death = .none)
      (phase : l.slot = .ready (.ok state) ∧ l.init = .outside ∨
        l.slot.vacant ∧ l.init = .finish (.ok state))
  | after (fast : l.fast = ⟨.deadOrDying, none⟩) (vacant : l.slot.vacant)
      (init : l.init.refused) (death : l.death.Claims sh t)

/-- Published entries keep their ids, and an id that was obtained leads to its thread. -/
structure Shared.Sound (sh : Shared Tid) : Prop where
  index : ∀ i info, sh.threads i = some (some info) → info.shortId.index = i
  unpushed : ∀ i, sh.pusher i = none → sh.threads i = none
  obtained : ∀ t id, (t, id) ∈ sh.obtained → ∃ info, sh.threads id.index = some (some info) ∧
    info.shortId = id ∧ info.queue = t
  distinct : (sh.obtained.map Prod.snd).Nodup

/-- The header of an object that no thread owns. -/
def Unowned (header : RawBrcHeader pw) : Prop :=
  header.shared = ⟨.ofInt 1, true, false⟩ ∧ header.biased = .unowned

structure Inv (s : Registry pw Tid) : Prop where
  shared : s.shared.Sound
  stage : ∀ t, Stage s.shared t (s.locals t)
  created : ∀ c ∈ s.created, c.status ≠ .active → Unowned c.header
  fault : s.fault = none ∨ s.fault = some .tooManyThreads

/-- What a step of `actor` leaves to the other threads. -/
structure Frame (actor : Option Tid) (sh sh' : Shared Tid) : Prop where
  pusher : ∀ i t, sh.pusher i = some t → sh'.pusher i = some t
  pending : ∀ i t, some t ≠ actor → sh.Reserved t i → sh'.threads i = none
  overflow : ∀ i, sh.threads i = some none → sh'.threads i = some none
  entry : ∀ i info, sh.threads i = some (some info) → some info.queue ≠ actor →
    ∃ info', sh'.threads i = some (some info') ∧ info'.shortId = info.shortId ∧
      info'.queue = info.queue ∧ info'.stateFlag.isLive = info.stateFlag.isLive ∧
      (info.stateFlag = .dying → info'.stateFlag = .dying)
  obtained : ∀ t id, some t ≠ actor → ((t, id) ∈ sh'.obtained ↔ (t, id) ∈ sh.obtained)

namespace Frame

variable {actor : Option Tid} {sh sh' : Shared Tid} {t : Tid}

/-- The registry is as before, but for the exhaustion flag. -/
theorem of_same (threads : sh'.threads = sh.threads) (pusher : sh'.pusher = sh.pusher)
    (obtained : sh'.obtained = sh.obtained) : Frame actor sh sh' where
  pusher _ _ pushed := pusher ▸ pushed
  pending _ _ _ reserved := threads ▸ reserved.2
  overflow _ found := threads ▸ found
  entry _ info found _ := ⟨info, threads ▸ found, rfl, rfl, rfl, id⟩
  obtained _ _ _ := obtained ▸ Iff.rfl

theorem reserved (frame : Frame actor sh sh') (other : some t ≠ actor) {index}
    (reserved : sh.Reserved t index) : sh'.Reserved t index :=
  ⟨frame.pusher index t reserved.1, frame.pending index t other reserved⟩

theorem live (frame : Frame actor sh sh') (other : some t ≠ actor) {index}
    (found : ∃ info, sh.threads index = some (some info) ∧ info.queue = t ∧
      info.stateFlag.isLive = true) :
    ∃ info, sh'.threads index = some (some info) ∧ info.queue = t ∧
      info.stateFlag.isLive = true := by
  obtain ⟨info, found, rfl, live⟩ := found
  obtain ⟨info', found', _, queue, flag, _⟩ := frame.entry index info found other
  exact ⟨info', found', queue, flag.trans live⟩

theorem owns (frame : Frame actor sh sh') (other : some t ≠ actor) {state}
    {flag : ThreadStateFlag → Prop} (owns : sh.Owns t state flag)
    (kept : ∀ f f' : ThreadStateFlag, flag f → f'.isLive = f.isLive → (f = .dying → f' = .dying) →
      flag f') : sh'.Owns t state flag := by
  obtain ⟨index, mine, obtained, info, found, shortId, rfl, holds⟩ := owns
  obtain ⟨info', found', same, queue, live, dying⟩ := frame.entry _ info found other
  exact ⟨index, mine, (frame.obtained _ _ other).mpr obtained, info', found', same.trans shortId, queue,
    kept _ _ holds live dying⟩

theorem owns_live (frame : Frame actor sh sh') (other : some t ≠ actor) {state}
    (owns : sh.Owns t state (·.isLive = true)) : sh'.Owns t state (·.isLive = true) :=
  frame.owns other owns fun _ _ before live _ => live.trans before

theorem owns_dying (frame : Frame actor sh sh') (other : some t ≠ actor) {state}
    (owns : sh.Owns t state (· = .dying)) : sh'.Owns t state (· = .dying) :=
  frame.owns other owns fun _ _ before _ dying => dying before

theorem init (frame : Frame actor sh sh') (other : some t ≠ actor) {pc : InitPc Tid}
    (claims : pc.Claims sh t) : pc.Claims sh' t := by
  cases pc with
  | convert index | storeExhausted index => exact frame.reserved other claims
  | publish index entry =>
      cases entry with
      | none => exact frame.reserved other claims
      | some info => exact ⟨frame.reserved other claims.1, claims.2⟩
  | readEntry index =>
      rcases claims with overflow | found
      · exact .inl (frame.overflow index overflow)
      · exact .inr (frame.live other found)
  | setFast index => exact frame.live other claims
  | finish result => cases result <;> exact claims
  | _ => trivial

theorem death (frame : Frame actor sh sh') (other : some t ≠ actor) {pc : DeathPc Tid}
    (claims : pc.Claims sh t) : pc.Claims sh' t := by
  cases pc with
  | none => trivial
  | swapDying state => exact frame.owns_live other claims
  | dropQueue state | switchDead state => exact frame.owns_dying other claims

/-- A step of another thread. -/
theorem stage (frame : Frame actor sh sh') (other : some t ≠ actor) {l : Locals Tid}
    (stage : Stage sh t l) : Stage sh' t l := by
  cases stage with
  | before fast flag vacant init death never =>
      exact .before fast flag vacant (frame.init other init) death
        fun id listed => never id ((frame.obtained t id other).mp listed)
  | active state fast flag owns death phase =>
      exact .active state fast flag (frame.owns_live other owns) death phase
  | after fast vacant init death => exact .after fast vacant init (frame.death other death)

end Frame

/-! ### Updates of the shared part -/

namespace Shared

variable {sh : Shared Tid} {t : Tid} {index : Nat}

theorem setFlag_of_found {info : Info Tid} (found : sh.threads index = some (some info)) (update) :
    sh.setFlag index update =
      sh.setEntry index (some { info with stateFlag := update info.stateFlag }) := by
  simp only [setFlag, found]

theorem setFlag_of_absent (absent : ∀ info, sh.threads index ≠ some (some info)) (update) :
    sh.setFlag index update = sh := by
  unfold setFlag
  split
  · rename_i info found
    exact absurd found (absent info)
  · rfl

@[simp] theorem threads_setEntry_self {entry} :
    (sh.setEntry index entry).threads index = some entry := Function.update_self ..

theorem threads_setEntry_of_ne {entry i} (other : i ≠ index) :
    (sh.setEntry index entry).threads i = sh.threads i := Function.update_of_ne other ..

theorem Sound.setFlag (sound : sh.Sound) (index : Nat) (update) : (sh.setFlag index update).Sound := by
  by_cases present : ∃ info, sh.threads index = some (some info)
  · obtain ⟨info, found⟩ := present
    rw [setFlag_of_found found]
    refine ⟨?_, ?_, ?_, sound.distinct⟩
    · intro i info' found'
      by_cases same : i = index
      · subst same
        rw [threads_setEntry_self, Option.some.injEq, Option.some.injEq] at found'
        exact found' ▸ sound.index i info found
      · rw [threads_setEntry_of_ne same] at found'
        exact sound.index i info' found'
    · intro i unpushed
      have absent := sound.unpushed i unpushed
      have other : i ≠ index := by
        rintro rfl
        cases found.symm.trans absent
      rwa [threads_setEntry_of_ne other]
    · intro t id listed
      obtain ⟨info', found', shortId, queue⟩ := sound.obtained t id listed
      by_cases same : id.index = index
      · rw [same] at found' ⊢
        obtain rfl : info = info' := by simpa using found.symm.trans found'
        exact ⟨_, threads_setEntry_self, shortId, queue⟩
      · exact ⟨info', (threads_setEntry_of_ne same).trans found', shortId, queue⟩
  · rwa [setFlag_of_absent (not_exists.mp present)]

/-- A flag of an entry changes; the actor may change that of its own entry as it likes. -/
theorem frame_setFlag {actor : Option Tid} (update : ThreadStateFlag → ThreadStateFlag)
    (kept : ∀ info, sh.threads index = some (some info) → some info.queue ≠ actor →
      (update info.stateFlag).isLive = info.stateFlag.isLive ∧
        (info.stateFlag = .dying → update info.stateFlag = .dying)) :
    Frame actor sh (sh.setFlag index update) := by
  by_cases present : ∃ info, sh.threads index = some (some info)
  · obtain ⟨info, found⟩ := present
    rw [setFlag_of_found found]
    refine ⟨fun _ _ pushed => pushed, ?_, ?_, ?_, fun _ _ _ => Iff.rfl⟩
    · intro i t _ reserved
      have other : i ≠ index := by
        rintro rfl
        cases found.symm.trans reserved.2
      exact (threads_setEntry_of_ne other).trans reserved.2
    · intro i overflow
      have other : i ≠ index := by
        rintro rfl
        cases found.symm.trans overflow
      exact (threads_setEntry_of_ne other).trans overflow
    · intro i info' found' other
      by_cases same : i = index
      · subst same
        obtain rfl : info = info' := by simpa using found.symm.trans found'
        have flags := kept info found other
        exact ⟨_, threads_setEntry_self, rfl, rfl, flags.1, flags.2⟩
      · exact ⟨info', (threads_setEntry_of_ne same).trans found', rfl, rfl, rfl, id⟩
  · rw [setFlag_of_absent (not_exists.mp present)]
    exact .of_same rfl rfl rfl

theorem Owns.flagOf {state : LocalThreadState Tid} {flag} (owns : sh.Owns t state flag) :
    ∃ f, sh.flagOf state.sharedInfo = some f ∧ flag f := by
  obtain ⟨_, _, _, info, found, _, _, holds⟩ := owns
  exact ⟨info.stateFlag, by simp [Shared.flagOf, found], holds⟩

/-- The thread may change the flag of its own entry. -/
theorem Owns.frame {state : LocalThreadState Tid} {flag} (owns : sh.Owns t state flag)
    (update : ThreadStateFlag → ThreadStateFlag) :
    Frame (some t) sh (sh.setFlag state.sharedInfo update) := by
  obtain ⟨_, _, _, info, found, _, queue, _⟩ := owns
  refine frame_setFlag update fun info' found' other => ?_
  obtain rfl : info = info' := by simpa using found.symm.trans found'
  exact absurd (congrArg some queue) other

theorem Owns.setDying {state : LocalThreadState Tid} {flag} (owns : sh.Owns t state flag) :
    (sh.setFlag state.sharedInfo fun _ => .dying).Owns t state (· = .dying) ∧
      Frame (some t) sh (sh.setFlag state.sharedInfo fun _ => .dying) := by
  refine ⟨?_, owns.frame _⟩
  obtain ⟨index, mine, obtained, info, found, shortId, queue, _⟩ := owns
  rw [setFlag_of_found found]
  exact ⟨index, mine, obtained, _, threads_setEntry_self, shortId, queue, rfl⟩

/-- A push gets an index that no push has had. -/
theorem Sound.reserve (sound : sh.Sound) (fresh : sh.pusher index = none) :
    (sh.reserve t index).Sound ∧ (sh.reserve t index).Reserved t index ∧
      Frame (some t) sh (sh.reserve t index) := by
  refine ⟨⟨sound.index, ?_, sound.obtained, sound.distinct⟩, ?_, ?_⟩
  · intro i unpushed
    by_cases same : i = index
    · exact same ▸ sound.unpushed index fresh
    · exact sound.unpushed i (by simpa [Shared.reserve, Function.update_of_ne same] using unpushed)
  · exact ⟨Function.update_self .., sound.unpushed index fresh⟩
  · refine ⟨?_, fun _ _ _ reserved => reserved.2, fun _ => id, ?_, fun _ _ _ => Iff.rfl⟩
    · intro i t' pushed
      have other : i ≠ index := by
        rintro rfl
        cases fresh.symm.trans pushed
      simpa [Shared.reserve, Function.update_of_ne other] using pushed
    · exact fun _ info found _ => ⟨info, found, rfl, rfl, rfl, id⟩

/-- The entry of a push becomes visible. -/
theorem Sound.publish (sound : sh.Sound) (reserved : sh.Reserved t index) {entry : Option (Info Tid)}
    (sane : ∀ info, entry = some info → info.shortId.index = index) :
    (sh.setEntry index entry).Sound ∧ Frame (some t) sh (sh.setEntry index entry) := by
  have visible : ∀ {i e}, sh.threads i = some e → i ≠ index := by
    rintro i e found rfl
    cases found.symm.trans reserved.2
  refine ⟨⟨?_, ?_, ?_, sound.distinct⟩, ⟨fun _ _ pushed => pushed, ?_, ?_, ?_, fun _ _ _ => Iff.rfl⟩⟩
  · intro i info found
    by_cases same : i = index
    · subst same
      rw [threads_setEntry_self, Option.some.injEq] at found
      exact sane info found
    · rw [threads_setEntry_of_ne same] at found
      exact sound.index i info found
  · intro i unpushed
    have other : i ≠ index := by
      rintro rfl
      cases reserved.1.symm.trans unpushed
    rw [threads_setEntry_of_ne other]
    exact sound.unpushed i unpushed
  · intro t' id listed
    obtain ⟨info, found, shortId, queue⟩ := sound.obtained t' id listed
    exact ⟨info, (threads_setEntry_of_ne (visible found)).trans found, shortId, queue⟩
  · intro i t' other pending
    have different : i ≠ index := by
      rintro rfl
      exact other (pending.1.symm.trans reserved.1)
    exact (threads_setEntry_of_ne different).trans pending.2
  · exact fun i overflow => (threads_setEntry_of_ne (visible overflow)).trans overflow
  · exact fun i info found _ =>
      ⟨info, (threads_setEntry_of_ne (visible found)).trans found, rfl, rfl, rfl, id⟩

/-- The thread takes the id of the entry that it has published. -/
theorem Sound.obtain (sound : sh.Sound) {info : Info Tid}
    (found : sh.threads index = some (some info)) (queue : info.queue = t)
    (never : ∀ id, (t, id) ∉ sh.obtained) :
    Sound { sh with obtained := sh.obtained ++ [(t, info.shortId)] } ∧
      Frame (some t) sh { sh with obtained := sh.obtained ++ [(t, info.shortId)] } := by
  have position := sound.index index info found
  refine ⟨⟨sound.index, sound.unpushed, ?_, ?_⟩, ?_⟩
  · intro t' id listed
    rcases List.mem_append.mp listed with earlier | latest
    · exact sound.obtained t' id earlier
    · simp only [List.mem_singleton, Prod.mk.injEq] at latest
      obtain ⟨rfl, rfl⟩ := latest
      exact ⟨info, position ▸ found, rfl, queue⟩
  · have fresh : info.shortId ∉ sh.obtained.map Prod.snd := by
      intro earlier
      obtain ⟨⟨t', id⟩, listed, rfl⟩ := List.mem_map.mp earlier
      -- the entry at the id's index names one thread only
      obtain ⟨info', found', _, queue'⟩ := sound.obtained t' _ listed
      rw [position] at found'
      obtain rfl : info = info' := by simpa using found.symm.trans found'
      exact never _ ((queue.symm.trans queue') ▸ listed)
    rw [List.map_append, List.nodup_append]
    refine ⟨sound.distinct, List.nodup_singleton _, ?_⟩
    intro earlier listed latest added
    obtain rfl : latest = info.shortId := by simpa using added
    rintro rfl
    exact fresh listed
  · refine ⟨fun _ _ pushed => pushed, fun _ _ _ reserved => reserved.2, fun _ => id, ?_, ?_⟩
    · exact fun _ info found _ => ⟨info, found, rfl, rfl, rfl, id⟩
    · intro t' id other
      have different : t' ≠ t := fun same => other (congrArg some same)
      simp [different]

end Shared

/-! ### Every step keeps the invariant -/

/-- The status and the id of a thread move forward together. -/
inductive Moves : LocalThreadStateFast → LocalThreadStateFast → Prop where
  | stay {fast} : Moves fast fast
  | activate {id} : Moves ⟨.uninit, none⟩ ⟨.active, some id⟩
  | die {id} : Moves ⟨.active, some id⟩ ⟨.deadOrDying, none⟩

structure Steps (s s' : Registry pw Tid) : Prop where
  inv : s'.Inv
  moves : ∀ t, Moves (s.locals t).fast (s'.locals t).fast

theorem unowned_init : Unowned (.init none : RawBrcHeader pw) :=
  ⟨RawBrcHeader.shared_init_none, RawBrcHeader.biased_init_none⟩

variable [DecidableEq Tid]

namespace Inv

variable {s s' : Registry pw Tid} {t : Tid}

/-- Thread `t` goes to `l`, with `sh` for the shared part. -/
theorem put (inv : s.Inv) {sh : Shared Tid} {l : Locals Tid} (sound : sh.Sound)
    (frame : Frame (some t) s.shared sh) (stage : Stage sh t l)
    (moves : Moves (s.locals t).fast l.fast) : s.Steps ((s.share sh).put t l) where
  inv := by
    refine ⟨sound, ?_, inv.created, inv.fault⟩
    intro t'
    by_cases same : t' = t
    · subst same
      simpa only [Registry.put, share, Function.update_self] using stage
    · simp only [Registry.put, share, Function.update_of_ne same]
      exact frame.stage (fun other => same (Option.some.inj other)) (inv.stage t')
  moves t' := by
    by_cases same : t' = t
    · subst same
      simpa only [Registry.put, share, Function.update_self] using moves
    · simp only [Registry.put, share, Function.update_of_ne same]
      exact .stay

/-- Only the thread's own part changes. -/
theorem putLocal (inv : s.Inv) {l : Locals Tid} (stage : Stage s.shared t l)
    (moves : Moves (s.locals t).fast l.fast) : s.Steps (s.put t l) :=
  inv.put inv.shared (.of_same rfl rfl rfl) stage moves

omit [DecidableEq Tid] in
theorem create (inv : s.Inv) {id : Option ShortThreadId}
    (active : (s.locals t).fast.status ≠ .active → id = none) : (s.create t id).Inv where
  shared := inv.shared
  stage := inv.stage
  created c listed inactive := by
    rcases List.mem_append.mp listed with earlier | latest
    · exact inv.created c earlier inactive
    · obtain rfl := List.mem_singleton.mp latest
      rw [active inactive]
      exact unowned_init
  fault := inv.fault

omit [DecidableEq Tid] in
theorem createOnly (inv : s.Inv) {id : Option ShortThreadId}
    (active : (s.locals t).fast.status ≠ .active → id = none) : s.Steps (s.create t id) :=
  ⟨inv.create active, fun _ => .stay⟩

omit [DecidableEq Tid] in
/-- The one panic that can happen: the address space is full of threads. -/
theorem tooManyThreads (inv : s.Inv) : s.Steps (s.fail .tooManyThreads) :=
  ⟨⟨inv.shared, inv.stage, inv.created, .inr rfl⟩, fun _ => .stay⟩

theorem enter (inv : s.Inv) {forHeader : Bool} (outside : s.Outside t = true)
    (vacant : (s.locals t).slot.vacant) : s.Steps (s.enter t forHeader) := by
  refine inv.putLocal ?_ .stay
  cases inv.stage t with
  | before fast flag vacant init death never => exact .before fast flag vacant trivial death never
  | active state fast flag owns death phase =>
      rcases phase with ⟨ready, _⟩ | ⟨_, returning⟩
      · simp [ready, Slot.vacant] at vacant
      · simp [Outside, returning] at outside
  | after fast vacant init death => exact .after fast vacant trivial death

theorem withCurrent (inv : s.Inv) (outside : s.Outside t = true) (reinit : Bool) :
    s.Steps (s.withCurrent t reinit) := by
  unfold Registry.withCurrent
  split
  · rename_i untouched
    exact inv.enter outside (by rw [untouched]; trivial)
  · exact ⟨inv, fun _ => .stay⟩
  · rename_i destroyed
    cases reinit with
    | true => exact inv.enter outside (by rw [destroyed]; trivial)
    | false => exact ⟨inv, fun _ => .stay⟩

theorem initHeader (inv : s.Inv) (outside : s.Outside t = true) (reinit : Bool) :
    s.Steps (s.initHeader t reinit) := by
  unfold Registry.initHeader
  cases inv.stage t with
  | before fast flag vacant init death never =>
      simp only [fast, LocalThreadStateFast.existing]
      split
      · exact inv.enter outside vacant
      · rename_i state ready
        simp [ready, Slot.vacant] at vacant
      · exact inv.createOnly fun _ => rfl
      · cases reinit with
        | true => exact inv.enter outside vacant
        | false => exact inv.createOnly fun _ => rfl
  | active state fast flag owns death phase =>
      simp only [fast, LocalThreadStateFast.existing]
      exact inv.createOnly fun inactive => absurd (by rw [fast]) inactive
  | after fast vacant init death =>
      simp only [fast, LocalThreadStateFast.existing]
      exact inv.createOnly fun _ => rfl

/-- `init_thread` returns, and the header that it was run for is made. -/
theorem finish (inv : s.Inv) {l : Locals Tid} (stage : Stage s.shared t l)
    (moves : Moves (s.locals t).fast l.fast) {id : Option ShortThreadId} {forHeader : Bool}
    (active : l.fast.status ≠ .active → id = none) :
    s.Steps (if forHeader then (s.put t l).create t id else s.put t l) := by
  have returned := inv.putLocal stage moves
  cases forHeader with
  | false => exact returned
  | true =>
      refine ⟨returned.inv.create ?_, returned.moves⟩
      simpa only [Registry.put, Function.update_self] using active

/-- `init_thread` on a thread whose locals are untouched. -/
theorem initThread_before (inv : s.Inv) {index : Nat}
    (fast : (s.locals t).fast = ⟨.uninit, none⟩) (flag : (s.locals t).stateFlag = none)
    (vacant : (s.locals t).slot.vacant) (init : (s.locals t).init.Claims s.shared t)
    (death : (s.locals t).death = .none) (never : ∀ id, (t, id) ∉ s.shared.obtained)
    (taken : s.initThread t index = some s') : s.Steps s' := by
  simp only [Registry.initThread] at taken
  cases pc : (s.locals t).init with
  | outside => simp [pc] at taken
  | readStatus =>
      simp only [pc, fast, Option.some.injEq] at taken
      exact taken ▸ inv.putLocal (.before rfl flag vacant trivial death never) (fast ▸ .stay)
  | loadExhausted =>
      simp only [pc] at taken
      split at taken <;> cases taken <;>
        exact inv.putLocal (.before fast flag vacant trivial death never) .stay
  | reserve =>
      simp only [pc, Option.ite_none_right_eq_some, Option.some.injEq] at taken
      obtain ⟨fresh, rfl⟩ := taken
      obtain ⟨sound, reserved, frame⟩ := inv.shared.reserve fresh (t := t)
      exact inv.put sound frame (.before fast flag vacant reserved death never) .stay
  | convert i =>
      have reserved : s.shared.Reserved t i := by simpa only [pc, InitPc.Claims] using init
      simp only [pc] at taken
      split at taken
      · exact Option.some.inj taken ▸ inv.tooManyThreads
      · rename_i id converted
        split at taken
        · rename_i shortId short
          cases taken
          rw [ShortThreadId.tryFrom_fromIndex converted] at short
          have claims : InitPc.Claims s.shared t (.publish i (some ⟨id, shortId, .live, t⟩)) :=
            ⟨reserved, ShortThreadId.index_ofIndex short, rfl, rfl⟩
          exact inv.putLocal (.before fast flag vacant claims death never) .stay
        · cases taken
          exact inv.putLocal (.before fast flag vacant reserved death never) .stay
  | storeExhausted i =>
      simp only [pc, Option.some.injEq] at taken init
      subst taken
      exact inv.put ⟨inv.shared.index, inv.shared.unpushed, inv.shared.obtained, inv.shared.distinct⟩
        (.of_same rfl rfl rfl) (.before fast flag vacant init death never) .stay
  | publish i entry =>
      simp only [pc, Option.some.injEq] at taken init
      subst taken
      cases entry with
      | none =>
          have sane : ∀ info : Info Tid, none = some info → info.shortId.index = i := by simp
          obtain ⟨sound, frame⟩ := inv.shared.publish init sane
          exact inv.put sound frame
            (.before fast flag vacant (.inl Shared.threads_setEntry_self) death never) .stay
      | some info =>
          obtain ⟨reserved, position, queue, live⟩ := init
          obtain ⟨sound, frame⟩ := inv.shared.publish reserved
            fun info' same => Option.some.inj same ▸ position
          have visible : InitPc.Claims (s.shared.setEntry i (some info)) t (.readEntry i) :=
            .inr ⟨info, Shared.threads_setEntry_self, queue, by rw [live]; rfl⟩
          exact inv.put sound frame (.before fast flag vacant visible death never) .stay
  | readEntry i =>
      simp only [pc] at taken init
      rcases init with overflow | found
      · simp only [overflow, Option.some.injEq] at taken
        exact taken ▸ inv.putLocal (.before fast flag vacant trivial death never) .stay
      · obtain ⟨info, entry, _⟩ := found
        simp only [entry, Option.some.injEq] at taken
        exact taken ▸ inv.putLocal (.before fast flag vacant ⟨info, entry, ‹_›⟩ death never) .stay
  | setFast i =>
      simp only [pc] at taken init
      obtain ⟨info, found, queue, live⟩ := init
      simp only [found, flag, fast, and_self, if_true, Option.some.injEq] at taken
      subst taken
      obtain ⟨sound, frame⟩ := inv.shared.obtain found queue never
      refine inv.put sound frame (.active ⟨i, info.shortId, t⟩ rfl rfl ?_ death (.inr ⟨vacant, rfl⟩)) ?_
      · exact ⟨inv.shared.index i info found, rfl, List.mem_append_right _ (List.mem_singleton_self _),
          info, found, rfl, queue, live⟩
      · exact fast ▸ .activate
  | finish result =>
      simp only [pc, Option.some.injEq] at taken init
      cases result with
      | ok state => exact init.elim
      | error e =>
          have returned : Stage s.shared t
              { s.locals t with slot := .ready (.error e), init := .outside, forHeader := false } :=
            .before fast flag trivial trivial death never
          exact taken ▸ inv.finish returned .stay fun _ => rfl

theorem initThread (inv : s.Inv) {index : Nat} (taken : s.initThread t index = some s') :
    s.Steps s' := by
  cases inv.stage t with
  | before fast flag vacant init death never =>
      exact inv.initThread_before fast flag vacant init death never taken
  | active state fast flag owns death phase =>
      simp only [Registry.initThread] at taken
      rcases phase with ⟨_, outside⟩ | ⟨_, returning⟩
      · simp [outside] at taken
      · simp only [returning, Option.some.injEq] at taken
        have returned : Stage s.shared t
            { s.locals t with slot := .ready (.ok state), init := .outside, forHeader := false } :=
          .active state fast flag owns death (.inl ⟨rfl, rfl⟩)
        exact taken ▸ inv.finish returned .stay fun inactive => absurd (by rw [fast]) inactive
  | after fast vacant init death =>
      simp only [Registry.initThread] at taken
      cases pc : (s.locals t).init with
      | outside => simp [pc] at taken
      | readStatus =>
          simp only [pc, fast, Option.some.injEq] at taken
          exact taken ▸ inv.putLocal (.after rfl vacant trivial death) (fast ▸ .stay)
      | finish result =>
          simp only [pc, Option.some.injEq] at taken init
          cases result with
          | ok state => exact init.elim
          | error e =>
              have returned : Stage s.shared t
                  { s.locals t with slot := .ready (.error e), init := .outside, forHeader := false } :=
                .after fast trivial trivial death
              exact taken ▸ inv.finish returned .stay fun _ => rfl
      | _ => simp [pc, InitPc.refused] at init

theorem exit (inv : s.Inv) (outside : s.Outside t = true) (taken : s.exit t = some s') : s.Steps s' := by
  simp only [Registry.exit] at taken
  cases inv.stage t with
  | before fast flag vacant init death never =>
      split at taken
      · cases taken
      · cases taken
      · cases taken
        exact inv.putLocal (.before fast flag trivial init death never) .stay
      · rename_i ready
        simp [ready, Slot.vacant] at vacant
  | active state fast flag owns death phase =>
      rcases phase with ⟨ready, idle⟩ | ⟨_, returning⟩
      · simp only [ready, fast, if_true, Option.some.injEq] at taken
        exact taken ▸ inv.putLocal (.after rfl trivial (by rw [idle]; trivial) owns) (fast ▸ .die)
      · simp [Outside, returning] at outside
  | after fast vacant init death =>
      split at taken
      · cases taken
      · cases taken
      · cases taken
        exact inv.putLocal (.after fast trivial init death) .stay
      · rename_i ready
        simp [ready, Slot.vacant] at vacant

theorem die (inv : s.Inv) (taken : s.die t = some s') : s.Steps s' := by
  simp only [Registry.die] at taken
  cases inv.stage t with
  | before fast flag vacant init death never => simp [death] at taken
  | active state fast flag owns death phase => simp [death] at taken
  | after fast vacant init death =>
      cases pc : (s.locals t).death with
      | none => simp [pc] at taken
      | swapDying state =>
          simp only [pc] at taken
          have owns : s.shared.Owns t state (·.isLive = true) := by rwa [pc] at death
          obtain ⟨f, flagOf, live⟩ := owns.flagOf
          simp only [flagOf, Option.any_some, live, if_true, Option.some.injEq] at taken
          obtain ⟨dying, frame⟩ := owns.setDying
          exact taken ▸ inv.put (inv.shared.setFlag ..) frame (.after fast vacant init dying) .stay
      | dropQueue state =>
          simp only [pc, Option.some.injEq] at taken
          rw [pc] at death
          exact taken ▸ inv.putLocal (.after fast vacant init death) .stay
      | switchDead state =>
          simp only [pc] at taken
          have owns : s.shared.Owns t state (· = .dying) := by rwa [pc] at death
          obtain ⟨f, flagOf, rfl⟩ := owns.flagOf
          simp only [flagOf, if_true, Option.some.injEq] at taken
          have frame := owns.frame fun _ => .dead
          exact taken ▸ inv.put (inv.shared.setFlag ..) frame (.after fast vacant init trivial) .stay

omit [DecidableEq Tid] in
/-- Another thread's `queue_object`, or a collection, changes a flag among the live ones. -/
theorem setFlag (inv : s.Inv) (index : Nat) {update : ThreadStateFlag → ThreadStateFlag}
    (kept : ∀ f, (update f).isLive = f.isLive ∧ (f = .dying → update f = .dying)) :
    s.Steps (s.share (s.shared.setFlag index update)) := by
  have frame : Frame none s.shared (s.shared.setFlag index update) :=
    Shared.frame_setFlag update fun info _ _ => kept info.stateFlag
  refine ⟨⟨inv.shared.setFlag index update, ?_, inv.created, inv.fault⟩, fun _ => .stay⟩
  intro t
  exact frame.stage (by simp) (inv.stage t)

theorem next (inv : s.Inv) {act : RegistryAct Tid} (taken : s.next act = some s') : s.Steps s' := by
  simp only [Registry.next, Option.ite_none_left_eq_some] at taken
  obtain ⟨_, taken⟩ := taken
  cases act with
  | withCurrent t reinit =>
      simp only [Option.ite_none_right_eq_some, Option.some.injEq] at taken
      exact taken.2 ▸ inv.withCurrent taken.1 reinit
  | initHeader t reinit =>
      simp only [Option.ite_none_right_eq_some, Option.some.injEq] at taken
      exact taken.2 ▸ inv.initHeader taken.1 reinit
  | initThread t index => exact inv.initThread taken
  | exit t =>
      simp only [Option.ite_none_right_eq_some, Bool.and_eq_true, Bool.not_eq_true'] at taken
      exact inv.exit taken.1.1 taken.2
  | die t =>
      simp only [Option.ite_none_right_eq_some] at taken
      exact inv.die taken.2
  | markQueued index =>
      simp only [Option.some.injEq] at taken
      exact taken ▸ inv.setFlag index fun f => by cases f <;> decide
  | markLive index =>
      simp only [Option.some.injEq] at taken
      exact taken ▸ inv.setFlag index fun f => by cases f <;> decide

end Inv

omit [DecidableEq Tid] in
theorem initial_inv : Inv (initial : Registry pw Tid) where
  shared := by constructor <;> simp [initial]
  stage _ := .before rfl rfl trivial trivial rfl (by simp [initial])
  created := by simp [initial]
  fault := .inl rfl

/-- What the registry promises: an id names one thread for good. -/
structure Sound (s : Registry pw Tid) : Prop where
  /-- No id was obtained twice. -/
  distinct : (s.shared.obtained.map Prod.snd).Nodup
  /-- The entry of an id is that of the thread that obtained it. -/
  getById : ∀ t id, (t, id) ∈ s.shared.obtained → ∃ info, s.getById id = some info ∧
    info.shortId = id ∧ info.queue = t
  /-- The state of a thread, and the flag it looks at, are those of the entry of its id. -/
  current : ∀ t state, (s.locals t).slot = .ready (.ok state) →
    (t, state.shortId) ∈ s.shared.obtained ∧ state.sharedInfo = state.shortId.index ∧
      state.queue = t ∧ (s.locals t).fast = ⟨.active, some state.shortId⟩ ∧
      (s.locals t).stateFlag = some state.sharedInfo
  /-- An id is present exactly in the active status. -/
  pair : ∀ t, (s.locals t).fast.shortId.isSome ↔ (s.locals t).fast.status = .active
  existing : ∀ t, (s.locals t).fast.existing ≠ none
  /-- Without an active state a header is merged and unowned from the start. -/
  unowned : ∀ c ∈ s.created, c.status ≠ .active → Unowned c.header
  fault : s.fault = none ∨ s.fault = some .tooManyThreads

omit [DecidableEq Tid] in
theorem Inv.sound {s : Registry pw Tid} (inv : s.Inv) : s.Sound where
  distinct := inv.shared.distinct
  getById t id listed := by
    obtain ⟨info, found, shortId, queue⟩ := inv.shared.obtained t id listed
    exact ⟨info, by rw [Registry.getById, found, Option.join_some], shortId, queue⟩
  current t state ready := by
    cases inv.stage t with
    | before fast flag vacant init death never => simp [ready, Slot.vacant] at vacant
    | after fast vacant init death => simp [ready, Slot.vacant] at vacant
    | active state' fast flag owns death phase =>
        rcases phase with ⟨ready', _⟩ | ⟨vacant, _⟩
        · obtain rfl : state' = state := by simpa using ready'.symm.trans ready
          exact ⟨owns.2.2.1, owns.1.symm, owns.2.1, fast, flag⟩
        · simp [ready, Slot.vacant] at vacant
  pair t := by cases inv.stage t <;> simp [*]
  existing t := by cases inv.stage t <;> simp [*, LocalThreadStateFast.existing]
  unowned := inv.created
  fault := inv.fault

/-- In every run of the registry, and at every further step the locals move forward only. -/
theorem registry_sound {s : Registry pw Tid} (reached : (system pw Tid).Reachable s) :
    s.Sound ∧ ∀ act s', (system pw Tid).step s act s' →
      ∀ t, Moves (s.locals t).fast (s'.locals t).fast := by
  have inv : s.Inv := by
    refine reached.invariant (P := Inv) ?_ ?_
    · rintro _ rfl
      exact initial_inv
    · exact fun _ _ _ before taken => (before.next taken).inv
  exact ⟨inv.sound, fun act s' taken => (inv.next taken).moves⟩

/-- Thread 0 gets an id and dies, thread 1 gets another one, thread 2 comes too late. -/
theorem registry_sound_at_exhaustion : ∃ s : Registry .w64 (Fin 3),
    s.shared.obtained = [(0, ⟨1, by decide⟩), (1, ⟨4095, by decide⟩)] ∧ s.shared.exhausted = true ∧
      s.created.length = 1 ∧ s.Sound := by
  have start : ((system .w64 (Fin 3)).restrict fun _ _ => True).Reachable initial := .start rfl
  let register (t : Fin 3) (index : Nat) : List (RegistryAct (Fin 3)) :=
    .withCurrent t false :: List.replicate 8 (.initThread t index)
  obtain ⟨s, reached, obtained, exhausted, created⟩ := start.of_replay
    (register 0 0 ++ [.exit 0, .die 0, .die 0, .die 0, .withCurrent 0 true, .initThread 0 1,
      .initThread 0 1] ++ register 1 4094 ++ [.initHeader 2 false] ++
      List.replicate 8 (.initThread 2 4095))
    (fun s => s.shared.obtained = [(0, ⟨1, by decide⟩), (1, ⟨4095, by decide⟩)] ∧
      s.shared.exhausted = true ∧ s.created.length = 1) (by decide +kernel)
  exact ⟨s, obtained, exhausted, created, (registry_sound reached.of_restrict).1⟩

end Registry

end BiasedRc
