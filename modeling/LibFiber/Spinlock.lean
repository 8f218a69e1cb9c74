import LibFiber.Semantics.Machine
import Mathlib.Algebra.Group.Nat.Defs
import Mathlib.Data.Finset.Card

namespace LibFiber.Spinlock

open Semantics Function

/-! The ticket lock `fiber_spinlock`.

A step is one access to the packed state.  A user stands for one use of the lock,
by whichever thread or fiber takes its steps.
-/

/-- `fiber_spinlock_internal_t` -/
structure Internal where
  ticket : BitVec 32
  users : BitVec 32
deriving DecidableEq, Repr

def Internal.blob (internal : Internal) : BitVec 64 := internal.users ++ internal.ticket

inductive Phase where
  | outside
  /-- In the loop of `fiber_spinlock_lock`. -/
  | waiting (myTicket : BitVec 32)
  /-- In `fiber_spinlock_trylock`, about to compare and swap. -/
  | trying (old : Internal)
  | holding
  /-- In `fiber_spinlock_unlock`, about to store. -/
  | unlocking (oldTicket : BitVec 32)
deriving DecidableEq, Repr

structure State (User : Type) where
  internal : Internal
  phase : User → Phase

/-- The calls come with their first access; `move` is the next one of a call under
way, and may be a spurious failure of `atomic_compare_exchange_weak`. -/
inductive Action (User : Type) where
  | lock (user : User)
  | trylock (user : User)
  | unlock (user : User)
  | move (user : User) (spurious : Bool)
deriving DecidableEq, Repr

/-- `fiber_spinlock_init` -/
def init {User : Type} : State User where
  internal := ⟨0, 0⟩
  phase := fun _ => .outside

section Steps

variable {User : Type}

/-- Whether the user's compare-and-swap is about to succeed. -/
def State.swaps (state : State User) (user : User) (spurious : Bool) : Bool :=
  match state.phase user with
  | .trying old => state.internal.blob == old.blob && !spurious
  | _ => false

variable [DecidableEq User]

def move (state : State User) (user : User) (spurious : Bool) : Option (State User) :=
  match state.phase user with
  | .outside | .holding => none
  | .waiting myTicket =>
    if state.internal.ticket = myTicket then
      some { state with phase := update state.phase user .holding }
    else some state
  | .trying old =>
    if state.swaps user spurious = true then
      some ⟨{ old with users := old.users + 1 }, update state.phase user .holding⟩
    else some { state with phase := update state.phase user .outside }
  | .unlocking oldTicket =>
    some ⟨{ state.internal with ticket := oldTicket + 1 }, update state.phase user .outside⟩

def step (state : State User) : Action User → Option (State User)
  | .lock user =>
    if state.phase user = .outside then
      some ⟨{ state.internal with users := state.internal.users + 1 },
        update state.phase user (.waiting state.internal.users)⟩
    else none
  | .trylock user =>
    if state.phase user = .outside then
      some { state with
        phase := update state.phase user
          (.trying { state.internal with ticket := state.internal.users }) }
    else none
  | .unlock user =>
    if state.phase user = .holding then
      some { state with phase := update state.phase user (.unlocking state.internal.ticket) }
    else none
  | .move user spurious => move state user spurious

end Steps

def machine (User : Type) [DecidableEq User] : Machine (State User) (Action User) where
  initial state := state = init
  step := step

abbrev History (User : Type) := List (State User × Action User)

inductive Move {User : Type} [DecidableEq User] (state : State User) :
    Action User → State User → Prop where
  | lock : state.phase user = .outside →
      Move state (.lock user)
        ⟨{ state.internal with users := state.internal.users + 1 },
          update state.phase user (.waiting state.internal.users)⟩
  | trylock : state.phase user = .outside →
      Move state (.trylock user)
        { state with
          phase := update state.phase user
            (.trying { state.internal with ticket := state.internal.users }) }
  | unlock : state.phase user = .holding →
      Move state (.unlock user)
        { state with phase := update state.phase user (.unlocking state.internal.ticket) }
  | acquire : state.phase user = .waiting state.internal.ticket →
      Move state (.move user spurious)
        { state with phase := update state.phase user .holding }
  | spin : state.phase user = .waiting myTicket → state.internal.ticket ≠ myTicket →
      Move state (.move user spurious) state
  | swap : state.phase user = .trying old → state.swaps user spurious →
      Move state (.move user spurious)
        ⟨{ old with users := old.users + 1 }, update state.phase user .holding⟩
  | fail : state.phase user = .trying old → state.swaps user spurious = false →
      Move state (.move user spurious)
        { state with phase := update state.phase user .outside }
  | store : state.phase user = .unlocking oldTicket →
      Move state (.move user spurious)
        ⟨{ state.internal with ticket := oldTicket + 1 }, update state.phase user .outside⟩

section Moves

variable {User : Type} [DecidableEq User] {state after : State User} {user : User}

attribute [local grind intro] Move

theorem move_moves (stepped : move state user spurious = some after) :
    Move state (.move user spurious) after := by
  cases phase : state.phase user <;> simp only [move, phase, reduceCtorEq] at stepped
  all_goals grind

theorem step_moves (stepped : step state action = some after) :
    Move state action after := by
  cases action with
  | move user spurious => exact move_moves stepped
  | lock | trylock | unlock =>
    simp only [step] at stepped
    grind

end Moves

section Line

variable {User : Type}

/-- A user that spins counts as a waiter from its increment on, one that has the lock
as its holder until the store of its `fiber_spinlock_unlock`. -/
def Phase.holds : Phase → Bool
  | .holding | .unlocking _ => true
  | _ => false

def Phase.waits : Phase → Bool
  | .waiting _ => true
  | _ => false

/-- There are fewer than `2 ^ 32` holders and waiters. -/
def Few (state : State User) : Prop :=
  ∃ crowd : Finset User, crowd.card < 2 ^ 32 ∧
    ∀ user, (state.phase user).holds ∨ (state.phase user).waits → user ∈ crowd

def increments (taken : State User × Action User) : Option User :=
  match taken.2 with
  | .lock user => some user
  | .move user spurious => if taken.1.swaps user spurious = true then some user else none
  | _ => none

def acquires (taken : State User × Action User) : Option User :=
  match taken.2 with
  | .move user spurious =>
    match taken.1.phase user with
    | .waiting myTicket => if taken.1.internal.ticket = myTicket then some user else none
    | .trying _ => if taken.1.swaps user spurious = true then some user else none
    | _ => none
  | _ => none

def incremented (history : History User) : List User := history.filterMap increments

def acquired (history : History User) : List User := history.filterMap acquires

/-- The holder, if there is one, and the waiters stand in one line, with consecutive
tickets from the current one on. -/
structure Lined (history : History User) (internal : Internal) (phase : User → Phase)
    (holder : Option User) (waiters : List User) : Prop where
  distinct : (holder.toList ++ waiters).Nodup
  holds : ∀ user, (phase user).holds ↔ holder = some user
  waits : ∀ user, (phase user).waits ↔ user ∈ waiters
  tickets : ∀ user myTicket, phase user = .waiting myTicket → ∀ index : Nat,
    (holder.toList ++ waiters)[index]? = some user →
      myTicket = internal.ticket + BitVec.ofNat 32 index
  users : internal.users = internal.ticket + BitVec.ofNat 32 (holder.toList ++ waiters).length
  guess : ∀ user old, phase user = .trying old → old.ticket = old.users
  stored : ∀ user oldTicket, phase user = .unlocking oldTicket → oldTicket = internal.ticket
  order : incremented history = acquired history ++ waiters

theorem eq_zero_of_add (small : ahead < 2 ^ 32)
    (same : ticket = ticket + BitVec.ofNat 32 ahead) : ahead = 0 := by
  have values := congrArg BitVec.toNat same
  simp only [BitVec.toNat_add, BitVec.toNat_ofNat] at values
  omega

theorem blob_inj {internal other : Internal} (same : internal.blob = other.blob) :
    internal = other := by
  obtain ⟨ticket, users⟩ := internal
  obtain ⟨otherTicket, otherUsers⟩ := other
  have values : (users ++ ticket).toNat = (otherUsers ++ otherTicket).toNat :=
    congrArg BitVec.toNat same
  rw [BitVec.toNat_append, BitVec.toNat_append, ← Nat.shiftLeft_add_eq_or_of_lt ticket.isLt,
    ← Nat.shiftLeft_add_eq_or_of_lt otherTicket.isLt] at values
  simp only [Nat.shiftLeft_eq] at values
  congr 1 <;> exact BitVec.eq_of_toNat_eq (by omega)

variable {state : State User} {history : History User}
variable {waiters : List User} {user : User}

variable [DecidableEq User] {holder : Option User}
  (lined : Lined history state.internal state.phase holder waiters)
include lined

theorem Lined.length_lt (few : Few state) : (holder.toList ++ waiters).length < 2 ^ 32 := by
  obtain ⟨crowd, small, all⟩ := few
  have within : (holder.toList ++ waiters).toFinset ⊆ crowd := by
    intro user member
    refine all user ?_
    rcases List.mem_append.mp (List.mem_toFinset.mp member) with holds | waits
    · exact .inl ((lined.holds user).mpr (Option.mem_toList.mp holds))
    · exact .inr ((lined.waits user).mpr waits)
  rw [← List.toFinset_card_of_nodup lined.distinct]
  exact Nat.lt_of_le_of_lt (Finset.card_le_card within) small

theorem Lined.front (few : Few state) (phase : state.phase user = .waiting state.internal.ticket) :
    holder = none ∧ ∃ rest, waiters = user :: rest := by
  have member : user ∈ holder.toList ++ waiters :=
    List.mem_append_right _ ((lined.waits user).mp (by rw [phase]; rfl))
  obtain ⟨index, found⟩ := List.getElem?_of_mem member
  obtain ⟨within, _⟩ := List.getElem?_eq_some_iff.mp found
  have first : index = 0 := eq_zero_of_add (Nat.lt_trans within (lined.length_lt few))
      (lined.tickets user _ phase index found)
  subst index
  cases holder with
  | some owner =>
    obtain rfl : owner = user := by simpa using found
    have holds := (lined.holds owner).mpr rfl
    rw [phase] at holds
    cases holds
  | none =>
    cases waiters with
    | nil => simp at found
    | cons next rest =>
      obtain rfl : next = user := by simpa using found
      exact ⟨rfl, rest, rfl⟩

/-- A compare-and-swap that succeeds finds the two halves equal, so that there is
neither holder nor waiter. -/
theorem Lined.swaps_empty {old : Internal} {spurious : Bool} (few : Few state)
    (phase : state.phase user = .trying old) (swaps : state.swaps user spurious) :
    holder = none ∧ waiters = [] := by
  have same : state.internal.blob = old.blob := by
    simp only [State.swaps, phase, Bool.and_eq_true, beq_iff_eq] at swaps
    exact swaps.1
  have equal : state.internal.ticket = state.internal.users := by
    rw [blob_inj same]
    exact lined.guess user old phase
  have none := eq_zero_of_add (lined.length_lt few) (equal.trans lined.users)
  simpa using none

end Line

section Preservation

theorem init_lined : Lined [] (init : State User).internal (init : State User).phase none [] where
  distinct := List.nodup_nil
  holds user := by simp [init, Phase.holds]
  waits user := by simp [init, Phase.waits]
  tickets user myTicket phase := by cases phase
  users := rfl
  guess user old phase := by cases phase
  stored user oldTicket phase := by cases phase
  order := rfl

variable {User : Type} [DecidableEq User] {state after : State User} {history : History User}
variable {user : User}
variable {spurious : Bool}

section

variable {holder : Option User} {waiters : List User}
  (lined : Lined history state.internal state.phase holder waiters)
include lined

theorem Lined.goto (distinct : (owner.toList ++ behind).Nodup)
    (holds : next.holds ↔ owner = some user) (waits : next.waits ↔ user ∈ behind)
    (others : ∀ other, other ≠ user → (owner = some other ↔ holder = some other) ∧
      (other ∈ behind ↔ other ∈ waiters))
    (ticket : ∀ myTicket, next = .waiting myTicket → ∀ index : Nat,
      (owner.toList ++ behind)[index]? = some user →
        myTicket = internal.ticket + BitVec.ofNat 32 index)
    (places : ∀ other, other ≠ user → ∀ index : Nat, (owner.toList ++ behind)[index]? = some other →
        ∃ former : Nat, (holder.toList ++ waiters)[former]? = some other ∧
          state.internal.ticket + BitVec.ofNat 32 former = internal.ticket + BitVec.ofNat 32 index)
    (users : internal.users = internal.ticket + BitVec.ofNat 32 (owner.toList ++ behind).length)
    (guess : ∀ old, next = .trying old → old.ticket = old.users)
    (stored : ∀ oldTicket, next = .unlocking oldTicket → oldTicket = internal.ticket)
    (kept : ∀ other, other ≠ user → holder = some other → state.internal.ticket = internal.ticket)
    (order : incremented (history ++ [taken]) = acquired (history ++ [taken]) ++ behind) :
    Lined (history ++ [taken]) internal (update state.phase user next) owner behind where
  distinct := distinct
  holds := by
    refine (forall_update_iff state.phase fun other phase => phase.holds ↔ _).mpr
      ⟨holds, fun other apart => ?_⟩
    rw [(others other apart).1]
    exact lined.holds other
  waits := by
    refine (forall_update_iff state.phase fun other phase => phase.waits ↔ _).mpr
      ⟨waits, fun other apart => ?_⟩
    rw [(others other apart).2]
    exact lined.waits other
  tickets := by
    refine (forall_update_iff state.phase fun other phase => ∀ myTicket,
      phase = .waiting myTicket → ∀ index : Nat, (owner.toList ++ behind)[index]? = some other →
        myTicket = internal.ticket + BitVec.ofNat 32 index).mpr
      ⟨ticket, fun other apart myTicket phase index found => ?_⟩
    obtain ⟨former, stood, same⟩ := places other apart index found
    rw [← same]
    exact lined.tickets other myTicket phase former stood
  users := users
  guess := by
    exact (forall_update_iff state.phase fun _ phase => ∀ old,
      phase = .trying old → old.ticket = old.users).mpr ⟨guess, fun other _ => lined.guess other⟩
  stored := by
    refine (forall_update_iff state.phase fun _ phase => ∀ oldTicket,
      phase = .unlocking oldTicket → oldTicket = internal.ticket).mpr
      ⟨stored, fun other apart oldTicket phase => ?_⟩
    have owned := (lined.holds other).mp (by rw [phase]; rfl)
    rw [← kept other apart owned]
    exact lined.stored other oldTicket phase
  order := order

theorem Lined.carry (holds : next.holds = (state.phase user).holds)
    (before : (state.phase user).waits = false) (behind : next.waits = false)
    (guess : ∀ old, next = .trying old → old.ticket = old.users)
    (stored : ∀ oldTicket, next = .unlocking oldTicket → oldTicket = state.internal.ticket)
    (still : increments (state, action) = none) (silent : acquires (state, action) = none) :
    Lined (history ++ [(state, action)]) state.internal (update state.phase user next)
      holder waiters := by
  refine lined.goto lined.distinct ?_ ?_ (fun _ _ => ⟨Iff.rfl, Iff.rfl⟩) ?_ ?_ lined.users guess
    stored (fun _ _ _ => rfl) ?_
  · rw [holds]
    exact lined.holds user
  · rw [behind, ← before]
    exact lined.waits user
  · rintro myTicket rfl
    cases behind
  · exact fun other _ index found => ⟨index, found, rfl⟩
  · simpa [incremented, acquired, still, silent] using lined.order

theorem lock_lined (phase : state.phase user = .outside) :
    Lined (history ++ [(state, .lock user)])
      { state.internal with users := state.internal.users + 1 }
      (update state.phase user (.waiting state.internal.users)) holder (waiters ++ [user]) := by
  have apart : user ∉ holder.toList ++ waiters := by
    intro member
    rcases List.mem_append.mp member with holds | waits
    · have owns := (lined.holds user).mpr (Option.mem_toList.mp holds)
      rw [phase] at owns
      cases owns
    · have stands := (lined.waits user).mpr waits
      rw [phase] at stands
      cases stands
  have line : holder.toList ++ (waiters ++ [user]) = (holder.toList ++ waiters) ++ [user] :=
    (List.append_assoc _ _ _).symm
  have distinct : (holder.toList ++ (waiters ++ [user])).Nodup := by
    rw [line]
    exact List.Nodup.append lined.distinct (List.nodup_singleton _)
      (List.disjoint_singleton.mpr apart)
  refine lined.goto distinct ?_ (by simp [Phase.waits]) ?_ ?_ ?_ ?_ nofun nofun
    (fun _ _ _ => rfl) ?_
  · rw [← lined.holds user, phase]
    rfl
  · exact fun other different => ⟨Iff.rfl, by simp [different]⟩
  · rintro _ ⟨⟩ index found
    rw [line] at found
    have last : index = (holder.toList ++ waiters).length := by
      rcases Nat.lt_or_ge index (holder.toList ++ waiters).length with inside | outside
      · rw [List.getElem?_append_left inside] at found
        exact (apart (List.mem_of_getElem? found)).elim
      · obtain ⟨within, _⟩ := List.getElem?_eq_some_iff.mp found
        rw [List.length_append, List.length_singleton] at within
        omega
    rw [last]
    exact lined.users
  · intro other different index found
    refine ⟨index, ?_, rfl⟩
    rw [line] at found
    rcases Nat.lt_or_ge index (holder.toList ++ waiters).length with inside | outside
    · rwa [List.getElem?_append_left inside] at found
    · rw [List.getElem?_append_right outside] at found
      exact (different (List.mem_singleton.mp (List.mem_of_getElem? found))).elim
  · rw [line, List.length_append, List.length_singleton, BitVec.ofNat_add, ← BitVec.add_assoc,
      ← lined.users]
    rfl
  · have order := congrArg (· ++ [user]) lined.order
    simp only [incremented, acquired, filterMap_snoc]
    simpa [increments, acquires, incremented, acquired] using order

theorem store_lined (phase : state.phase user = .unlocking oldTicket) :
    Lined (history ++ [(state, .move user spurious)])
      { state.internal with ticket := oldTicket + 1 } (update state.phase user .outside)
      none waiters := by
  obtain rfl : holder = some user := (lined.holds user).mp (by rw [phase]; rfl)
  obtain rfl := lined.stored user oldTicket phase
  have turn : ∀ index : Nat, state.internal.ticket + 1 + BitVec.ofNat 32 index =
      state.internal.ticket + BitVec.ofNat 32 (index + 1) := by
    intro index
    rw [BitVec.add_assoc, Nat.add_comm, BitVec.ofNat_add]
    rfl
  obtain ⟨fresh, distinct⟩ := List.nodup_cons.mp lined.distinct
  refine lined.goto distinct (by simp [Phase.holds]) (by simpa [Phase.waits] using fresh) ?_
    nofun ?_ ?_ nofun nofun ?_ ?_
  · intro other apart
    simp [Ne.symm apart]
  · exact fun other _ index found => ⟨index + 1, found, (turn index).symm⟩
  · exact lined.users.trans (turn _).symm
  · intro other apart owned
    exact (apart (Option.some.inj owned).symm).elim
  · simp only [incremented, acquired, filterMap_snoc]
    simpa [increments, acquires, State.swaps, phase, incremented, acquired] using lined.order

end

theorem acquire_lined (lined : Lined history state.internal state.phase none (user :: rest))
    (phase : state.phase user = .waiting state.internal.ticket) :
    Lined (history ++ [(state, .move user spurious)]) state.internal
      (update state.phase user .holding) (some user) rest := by
  have fresh : user ∉ rest := (List.nodup_cons.mp lined.distinct).1
  refine lined.goto lined.distinct (by simp [Phase.holds]) (by simp [Phase.waits, fresh]) ?_
    nofun ?_ lined.users nofun nofun nofun ?_
  · intro other apart
    simp [apart, Ne.symm apart]
  · exact fun other _ index found => ⟨index, found, rfl⟩
  · simp only [incremented, acquired, filterMap_snoc]
    simpa [increments, acquires, State.swaps, phase, incremented, acquired] using lined.order

theorem swap_lined (lined : Lined history state.internal state.phase none [])
    (phase : state.phase user = .trying old) (swaps : state.swaps user spurious) :
    Lined (history ++ [(state, .move user spurious)]) { old with users := old.users + 1 }
      (update state.phase user .holding) (some user) [] := by
  refine lined.goto (List.nodup_singleton user) (by simp [Phase.holds]) (by simp [Phase.waits]) ?_
    nofun ?_ ?_ nofun nofun nofun ?_
  · intro other apart
    simp [Ne.symm apart]
  · intro other apart index found
    exact (apart (List.mem_singleton.mp (List.mem_of_getElem? found))).elim
  · show old.users + 1 = old.ticket + 1
    rw [lined.guess user old phase]
  · simp only [incremented, acquired, filterMap_snoc]
    simpa [increments, acquires, swaps, phase, incremented, acquired] using lined.order

theorem Move.lined (move : Move state action after) (few : Few state)
    (lined : Lined history state.internal state.phase holder waiters) :
    ∃ holder waiters, Lined (history ++ [(state, action)]) after.internal after.phase
      holder waiters := by
  cases move with
  | lock phase => exact ⟨_, _, lock_lined lined phase⟩
  | @trylock user phase =>
    refine ⟨holder, waiters, lined.carry (by rw [phase]; rfl) (by rw [phase]; rfl) rfl ?_ nofun
      rfl rfl⟩
    rintro _ ⟨⟩
    rfl
  | @unlock user phase =>
    refine ⟨holder, waiters, lined.carry (by rw [phase]; rfl) (by rw [phase]; rfl) rfl nofun ?_
      rfl rfl⟩
    rintro _ ⟨⟩
    rfl
  | acquire phase =>
    obtain ⟨rfl, rest, rfl⟩ := lined.front few phase
    exact ⟨_, _, acquire_lined lined phase⟩
  | @spin user myTicket spurious phase apart =>
    refine ⟨holder, waiters, { lined with order := ?_ }⟩
    simp only [incremented, acquired, filterMap_snoc]
    simpa [increments, acquires, State.swaps, phase, apart, incremented, acquired] using lined.order
  | @swap user old spurious phase swaps =>
    obtain ⟨rfl, rfl⟩ := lined.swaps_empty few phase swaps
    exact ⟨_, _, swap_lined lined phase swaps⟩
  | @fail user old spurious phase swaps =>
    exact ⟨holder, waiters, lined.carry (by rw [phase]; rfl) (by rw [phase]; rfl) rfl nofun nofun
      (by simp [increments, swaps]) (by simp [acquires, phase, swaps])⟩
  | store phase => exact ⟨_, _, store_lined lined phase⟩

theorem run_lined (run : (machine User).Run history state) (few : ∀ taken ∈ history, Few taken.1) :
    ∃ holder waiters, Lined history state.internal state.phase holder waiters := by
  refine run.invariant_of_allowed (fun state _ => Few state)
    (fun history state =>
      ∃ holder waiters, Lined history state.internal state.phase holder waiters) ?_ ?_ few
  · rintro _ rfl
    exact ⟨none, [], init_lined⟩
  · rintro history before action after _ ⟨holder, waiters, lined⟩ few stepped
    exact (step_moves stepped).lined few lined

/-- The lock has one holder at a time, `users` is ahead of `ticket` by the number of
holders and waiters, the lock goes round in the order of the increments, and a
`fiber_spinlock_trylock` succeeds only where nobody holds or waits. -/
theorem spinlock_fair (run : (machine User).Run history state)
    (few : ∀ taken ∈ history, Few taken.1) (last : Few state) :
    (∀ user other, (state.phase user).holds → (state.phase other).holds → user = other) ∧
    (∃ crowd : Finset User, (∀ user, user ∈ crowd ↔
        (state.phase user).holds ∨ (state.phase user).waits) ∧
      (state.internal.users - state.internal.ticket).toNat = crowd.card) ∧
    acquired history <+: incremented history ∧
    (∀ user spurious old after, state.phase user = .trying old →
      step state (.move user spurious) = some after → after.phase user = .holding →
      ∀ other, (state.phase other).holds = false ∧ (state.phase other).waits = false) := by
  obtain ⟨holder, waiters, lined⟩ := run_lined run few
  refine ⟨?_, ?_, ?_, ?_⟩
  · intro user other holds rivals
    exact Option.some.inj (((lined.holds user).mp holds).symm.trans ((lined.holds other).mp rivals))
  · refine ⟨(holder.toList ++ waiters).toFinset, fun user => ?_, ?_⟩
    · rw [lined.holds, lined.waits, List.mem_toFinset, List.mem_append, Option.mem_toList]
    · have small := lined.length_lt last
      rw [List.toFinset_card_of_nodup lined.distinct, lined.users, BitVec.add_comm,
        BitVec.add_sub_cancel, BitVec.toNat_ofNat, Nat.mod_eq_of_lt small]
  · exact ⟨waiters, lined.order.symm⟩
  · intro user spurious old after phase stepped holding other
    cases step_moves stepped with
    | acquire waiting | spin waiting | store waiting =>
      rw [phase] at waiting
      cases waiting
    | fail => simp at holding
    | swap _ swaps =>
      obtain ⟨rfl, rfl⟩ := lined.swaps_empty last phase swaps
      have idle := lined.holds other
      have absent := lined.waits other
      simp only [reduceCtorEq, List.not_mem_nil, iff_false, Bool.not_eq_true] at idle absent
      exact ⟨idle, absent⟩

end Preservation

/-- A second user fails to get the lock at once, waits for it and gets it. -/
def contended : List (Action Bool) :=
  [.lock true, .move true false, .trylock false, .move false false, .lock false, .move false false,
    .unlock true, .move true false, .move false false]

theorem few_of_two (state : State Bool) : Few state := by
  refine ⟨{true, false}, by decide, fun user _ => ?_⟩
  cases user <;> decide

theorem spinlock_fair_contended : ∃ history state,
    (machine Bool).Run history state ∧ (∀ taken ∈ history, Few taken.1) ∧ Few state ∧
      state.internal = ⟨1, 2⟩ ∧ acquired history = [true, false] ∧
      acquired history <+: incremented history := by
  have run := Machine.run_of_isSome (show (machine Bool).initial init from rfl)
    (show ((machine Bool).exec init contended).isSome by decide)
  exact ⟨_, _, run, fun taken _ => few_of_two taken.1, few_of_two _, by decide, by decide,
    (spinlock_fair run (fun taken _ => few_of_two taken.1) (few_of_two _)).2.2.1⟩

section Turns

variable {User : Type} [DecidableEq User] {state : State User} {history : History User}

/-- The waiter whose ticket is next takes the lock with its next read. -/
theorem Lined.enters (lined : Lined history state.internal state.phase none (first :: rest))
    (spurious : Bool) : step state (.move first spurious) =
      some { state with phase := update state.phase first .holding } := by
  have waits := (lined.waits first).mpr (List.mem_cons_self ..)
  cases phase : state.phase first with
  | waiting myTicket =>
    have turn : myTicket = state.internal.ticket :=
      (lined.tickets first myTicket phase 0 rfl).trans (BitVec.add_zero _)
    simp [step, move, phase, turn]
  | outside | holding | trying | unlocking =>
    rw [phase] at waits
    cases waits

/-- A waiter's ticket tells how often the lock changes hands before its turn: once for
each user that has come before it and has not had the lock yet, and once for the holder.
A lock that nobody holds goes to the first of them as soon as that one looks again. -/
theorem waiter_has_turn {user : User} {myTicket : BitVec 32}
    (run : (machine User).Run history state) (few : ∀ taken ∈ history, Few taken.1)
    (last : Few state) (phase : state.phase user = .waiting myTicket) :
    ∃ ahead behind, incremented history = acquired history ++ (ahead ++ user :: behind) ∧
      (∀ owner, (state.phase owner).holds →
        (myTicket - state.internal.ticket).toNat = ahead.length + 1) ∧
      ((∀ other, (state.phase other).holds = false) →
        (myTicket - state.internal.ticket).toNat = ahead.length ∧
        ∃ first, (ahead ++ [user]).head? = some first ∧
          ∀ spurious, step state (.move first spurious) =
            some { state with phase := update state.phase first .holding }) := by
  obtain ⟨holder, waiters, lined⟩ := run_lined run few
  have small := lined.length_lt last
  obtain ⟨ahead, behind, rfl⟩ := List.append_of_mem ((lined.waits user).mp (by rw [phase]; rfl))
  have turn := lined.tickets user myTicket phase (holder.toList.length + ahead.length)
    (by simp)
  have distance : (myTicket - state.internal.ticket).toNat =
      holder.toList.length + ahead.length := by
    simp only [List.length_append] at small
    rw [turn, BitVec.add_comm, BitVec.add_sub_cancel, BitVec.toNat_ofNat,
      Nat.mod_eq_of_lt (by omega)]
  refine ⟨ahead, behind, lined.order, fun owner holds => ?_, fun free => ?_⟩
  · rw [distance, (lined.holds owner).mp holds, Nat.add_comm]
    rfl
  · cases holder with
    | some owner =>
      have holds := (lined.holds owner).mpr rfl
      rw [free owner] at holds
      cases holds
    | none =>
      refine ⟨distance.trans (Nat.zero_add _), ?_⟩
      cases ahead with
      | nil => exact ⟨user, rfl, lined.enters⟩
      | cons first rest => exact ⟨first, rfl, lined.enters⟩

theorem waiter_has_turn_contended : ∃ history state,
    (machine Bool).Run history state ∧ state.phase false = .waiting 1 ∧
      ∃ ahead behind, incremented history = acquired history ++ (ahead ++ false :: behind) ∧
        (1 - state.internal.ticket).toNat = ahead.length + 1 := by
  obtain ⟨state, run, checked⟩ := Machine.run_of_check (show (machine Bool).initial init from rfl)
    (show ((machine Bool).exec init (contended.take 6)).any fun state =>
      decide (state.phase false = .waiting 1 ∧ (state.phase true).holds) by decide)
  obtain ⟨waits, holds⟩ := of_decide_eq_true checked
  obtain ⟨ahead, behind, order, held, _⟩ :=
    waiter_has_turn run (fun taken _ => few_of_two taken.1) (few_of_two _) waits
  exact ⟨_, _, run, waits, ahead, behind, order, held true holds⟩

end Turns

end LibFiber.Spinlock
