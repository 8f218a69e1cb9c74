import LibFiber.Deque.Machine

namespace LibFiber.Deque

open Data Semantics Function List

/-! The deque refines a plain list with one place for the element the owner has
taken and not returned yet.
-/

structure Spec (β : Type) where
  contents : List β
  held : List β

/-- Elements enter at the newest end with a push, leave at the oldest end with a
steal and at the newest end with a pop.  EMPTY and ABORT remove nothing. -/
inductive Spec.Step {α : Type} : Spec (Option α) → Outcome α → Spec (Option α) → Prop where
  | stutter {spec : Spec (Option α)} : Step spec .internal spec
  | take {older : List (Option α)} {newest : Option α} :
      Step ⟨older ++ [newest], []⟩ .internal ⟨older, [newest]⟩
  | pushed {contents : List (Option α)} {p : α} :
      Step ⟨contents, []⟩ (.pushed p) ⟨contents ++ [some p], []⟩
  | popped {contents : List (Option α)} {ret : Option α} :
      Step ⟨contents, [ret]⟩ (.popped ret) ⟨contents, []⟩
  | popFailed {contents : List (Option α)} : Step ⟨contents, []⟩ .popFailed ⟨contents, []⟩
  | stolen {oldest : Option α} {newer held : List (Option α)} :
      Step ⟨oldest :: newer, held⟩ (.stolen oldest) ⟨newer, held⟩
  | stealFailed {spec : Spec (Option α)} : Step spec .stealFailed spec

variable {Id α : Type}

/-- The end of the abstract contents.  While a pop has lowered the bottom but has
not yet won its entry, the entry at the bottom still belongs to the deque. -/
def State.reach (state : State Id α) : Int :=
  match state.owner with
  | .popLoadTop _ _ | .popReset _ | .popCas _ _ | .popFinish _ _ => state.bottom + 1
  | .popGet b t _ => if t < b then state.bottom else state.bottom + 1
  | _ => state.bottom

def State.contents (state : State Id α) : List (Option α) :=
  state.underlying.entries state.top state.reach

/-- The entry the owner has won and is about to return. -/
def State.held (state : State Id α) : List (Option α) :=
  match state.owner with
  | .popGet b t a => if t < b then [(state.arrays a).get b] else []
  | .popFinish _ (some ret) => [ret]
  | _ => []

def State.spec (state : State Id α) : Spec (Option α) :=
  ⟨state.contents, state.held⟩

/-- The array under construction agrees with the published one from `low` up to
`high`. -/
def State.Copied (state : State Id α) (low high : Int) : Prop :=
  (state.arrays (state.current + 1)).logSize = state.underlying.logSize + 1 ∧
    ∀ index, low ≤ index → index < high →
      (state.arrays (state.current + 1)).get index = state.underlying.get index

def State.OwnerSound (state : State Id α) : Prop :=
  match state.owner with
  | .idle => True
  | .pushLoadTop _ b => b = state.bottom
  | .pushLoadArray _ b t => b = state.bottom ∧ t ≤ state.top ∧ b - t < state.underlying.size
  | .growCopy _ b t i =>
    b = state.bottom ∧ t ≤ state.top ∧ b - t < state.underlying.size ∧ t ≤ i ∧ i ≤ b ∧
      state.Copied t i
  | .pushPublish _ b => b = state.bottom ∧ state.Copied state.top b
  | .pushPut _ b => b = state.bottom ∧ b - state.top < state.underlying.sizeMinusOne
  | .pushStore p b =>
    b = state.bottom ∧ b - state.top < state.underlying.sizeMinusOne ∧
      state.underlying.get b = some p
  | .popLoadArray b => b + 1 = state.bottom
  | .popStore b a => b + 1 = state.bottom ∧ a = state.current
  | .popLoadTop b a => b = state.bottom ∧ a = state.current
  | .popReset t => t = state.bottom + 1 ∧ t = state.top
  | .popGet b t a => b = state.bottom ∧ a = state.current ∧ t ≤ state.top ∧ t ≤ b
  | .popCas t ret => t = state.bottom ∧ t ≤ state.top ∧ ret = state.underlying.get t
  | .popFinish tPlusOne ret => tPlusOne = state.bottom + 1 ∧ (ret.isSome → state.top = tPlusOne)

/-- A thief whose top is still the current one is looking at a live entry, and
the array it holds has that entry, however old the array is. -/
def State.ThiefSound (state : State Id α) : Thief α → Prop
  | .idle => True
  | .loadBottom t => t ≤ state.top
  | .loadArray t b => t ≤ state.top ∧ (t = state.top → t < b → t < state.reach)
  | .get t a =>
    t ≤ state.top ∧ a ≤ state.current ∧
      (t = state.top → t < state.reach ∧ (state.arrays a).get t = state.underlying.get t)
  | .cas t ret =>
    t ≤ state.top ∧ (t = state.top → t < state.reach ∧ ret = state.underlying.get t)

structure Invariant (state : State Id α) : Prop where
  ordered : state.top ≤ state.reach
  room : state.reach - state.top < state.underlying.size
  owner : state.OwnerSound
  thieves : ∀ id, state.ThiefSound (state.thief id)

theorem init_invariant : Invariant (init : State Id α) where
  ordered := Int.le_refl 0
  room := CircularArray.size_pos _
  owner := trivial
  thieves _ := trivial

theorem State.bottom_le_reach (state : State Id α) : state.bottom ≤ state.reach := by
  unfold State.reach
  cases state.owner with
  | popGet b t a =>
    split <;> omega
  | popLoadTop | popReset | popCas | popFinish => exact Int.le_add_one (Int.le_refl _)
  | _ => exact Int.le_refl _

/-- What a step of the owner leaves to the thieves: the live entry at an
unchanged top stays live and stays readable in every array published so far. -/
structure Follows (before after : State Id α) : Prop where
  top : before.top ≤ after.top
  current : before.current ≤ after.current
  live : after.top = before.top → before.top < before.reach → before.top < after.reach
  entry : before.top < before.reach →
    after.underlying.get before.top = before.underlying.get before.top
  arrays : ∀ a ≤ before.current, before.top < before.reach →
    (after.arrays a).get before.top = (before.arrays a).get before.top

theorem Follows.thiefSound {before after : State Id α} (follows : Follows before after)
    {thief : Thief α} (sound : before.ThiefSound thief) : after.ThiefSound thief := by
  obtain ⟨top, current, live, entry, arrays⟩ := follows
  cases thief with
  | idle => trivial
  | loadBottom t => exact Int.le_trans sound top
  | loadArray t b =>
    obtain ⟨bound, alive⟩ := sound
    refine ⟨Int.le_trans bound top, fun same below => ?_⟩
    omega
  | get t a =>
    obtain ⟨bound, published, alive⟩ := sound
    refine ⟨Int.le_trans bound top, Nat.le_trans published current, fun same => ?_⟩
    obtain rfl : t = before.top := by omega
    obtain ⟨below, value⟩ := alive rfl
    exact ⟨live (by omega) below, by rw [arrays a published below, entry below, value]⟩
  | cas t ret =>
    obtain ⟨bound, alive⟩ := sound
    refine ⟨Int.le_trans bound top, fun same => ?_⟩
    obtain rfl : t = before.top := by omega
    obtain ⟨below, value⟩ := alive rfl
    exact ⟨live (by omega) below, by rw [entry below, value]⟩

/-- One step of the implementation is one step of the list, or none. -/
structure Simulates (before : State Id α) (outcome : Outcome α) (after : State Id α) : Prop where
  invariant : Invariant after
  step : Spec.Step before.spec outcome after.spec

section OwnerSteps

variable {state : State Id α}

theorem Invariant.follow {after : State Id α} (invariant : Invariant state)
    (follows : Follows state after) (same : after.thief = state.thief)
    (ordered : after.top ≤ after.reach)
    (room : after.reach - after.top < after.underlying.size) (owner : after.OwnerSound) :
    Invariant after where
  ordered := ordered
  room := room
  owner := owner
  thieves id := by
    rw [same]
    exact follows.thiefSound (invariant.thieves id)

theorem Invariant.goto {next : Owner α} (invariant : Invariant state)
    (sound : (state.goto next).OwnerSound) (sameReach : (state.goto next).reach = state.reach)
    (sameHeld : (state.goto next).held = state.held) :
    Simulates state .internal (state.goto next) where
  invariant := by
    refine invariant.follow
      ⟨Int.le_refl _, Nat.le_refl _, ?_, fun _ => rfl, fun _ _ _ => rfl⟩ rfl ?_
      ?_ sound
    · exact fun _ below => sameReach ▸ below
    · exact sameReach ▸ invariant.ordered
    · exact sameReach ▸ invariant.room
  step := by
    have same : (state.goto next).spec = state.spec := by
      simp only [State.spec, State.contents, sameReach, sameHeld]
      rfl
    exact same ▸ .stutter

/-- The array after the published one, where the owner builds its copy. -/
def State.scratch (state : State Id α) (array : CircularArray α) (next : Owner α) : State Id α :=
  { state with arrays := update state.arrays (state.current + 1) array, owner := next }

theorem State.scratch_arrays (array : CircularArray α) (next : Owner α)
    (published : a ≤ state.current) : (state.scratch array next).arrays a = state.arrays a := by
  have older : a ≠ state.current + 1 := by omega
  simp [State.scratch, older]

@[simp] theorem State.scratch_underlying (array : CircularArray α) (next : Owner α) :
    (state.scratch array next).underlying = state.underlying :=
  State.scratch_arrays array next (Nat.le_refl _)

section

variable (invariant : Invariant state)
include invariant

theorem Invariant.scratch {array : CircularArray α} {next : Owner α}
    (sound : (state.scratch array next).OwnerSound)
    (sameReach : (state.scratch array next).reach = state.reach)
    (sameHeld : (state.scratch array next).held = state.held) :
    Simulates state .internal (state.scratch array next) where
  invariant := by
    refine invariant.follow ⟨Int.le_refl _, Nat.le_refl _, fun _ below => sameReach ▸ below,
      fun _ => by rw [State.scratch_underlying], fun a published _ => ?_⟩ rfl ?_ ?_ sound
    · rw [State.scratch_arrays array next published]
    · exact sameReach ▸ invariant.ordered
    · rw [State.scratch_underlying]
      exact sameReach ▸ invariant.room
  step := by
    have same : (state.scratch array next).spec = state.spec := by
      simp only [State.spec, State.contents, sameReach, sameHeld, State.scratch_underlying]
      rfl
    exact same ▸ .stutter

theorem pushDecide_simulates (found : state.owner = .pushLoadArray p b t) :
    Simulates state .internal (pushDecide state p b t) := by
  have sound := invariant.owner
  simp only [State.OwnerSound, found] at sound
  obtain ⟨bottom, below, near⟩ := sound
  have ordered := invariant.ordered
  have reach : state.reach = state.bottom := by simp [State.reach, found]
  unfold pushDecide
  split
  · refine invariant.scratch ⟨bottom, below, ?_, Int.le_refl t, by omega, ?_, ?_⟩ ?_ ?_
    · simpa using near
    · rw [State.scratch_underlying]
      simp [State.scratch, CircularArray.create]
    · intro index atLeast less
      omega
    · simp [State.reach, State.scratch, found]
    · simp [State.held, State.scratch, found]
  · rename_i fits
    refine invariant.goto ⟨bottom, ?_⟩ ?_ ?_
    · change b - state.top < state.underlying.sizeMinusOne
      omega
    · simp [State.reach, State.goto, found]
    · simp [State.held, State.goto, found]

theorem growCopy_simulates (found : state.owner = .growCopy p b t i) :
    Simulates state .internal (growCopy state p b t i) := by
  have sound := invariant.owner
  simp only [State.OwnerSound, found] at sound
  obtain ⟨bottom, below, near, atLeast, atMost, grown, copied⟩ := sound
  unfold growCopy
  split
  · rename_i more
    have double := CircularArray.size_double grown
    refine invariant.scratch ⟨bottom, below, ?_, by omega, by omega, ?_, fun index low high => ?_⟩
      ?_ ?_
    · simpa using near
    · rw [State.scratch_underlying]
      simpa [State.scratch, CircularArray.put] using grown
    · rw [State.scratch_underlying]
      simp only [State.scratch, update_self]
      rcases Int.lt_or_eq_of_le (Int.lt_add_one_iff.mp high) with earlier | rfl
      · rw [CircularArray.get_put_of_ne _ (by omega) (by omega) (by omega)]
        exact copied index low earlier
      · exact CircularArray.get_put_self _ _ _
    · simp [State.reach, State.scratch, found]
    · simp [State.held, State.scratch, found]
  · rename_i finished
    refine invariant.goto ⟨bottom, grown, fun index low high => ?_⟩ ?_ ?_
    · exact copied index (Int.le_trans below low) (by omega)
    · simp [State.reach, State.goto, found]
    · simp [State.held, State.goto, found]

theorem pushPublish_simulates (found : state.owner = .pushPublish p b) :
    Simulates state .internal
      { state with current := state.current + 1, owner := .pushPut p b } := by
  have sound := invariant.owner
  simp only [State.OwnerSound, found] at sound
  obtain ⟨bottom, grown, copied⟩ := sound
  have reach : state.reach = b := by simp [State.reach, found, bottom]
  have ordered := invariant.ordered
  have room := invariant.room
  have double := CircularArray.size_double grown
  have positive := state.underlying.size_pos
  rw [reach] at ordered room
  have reached : State.reach { state with
      current := state.current + 1, owner := .pushPut p b } = b := by simp [State.reach, bottom]
  constructor
  · refine invariant.follow ⟨Int.le_refl _, Nat.le_succ _, fun _ below => ?_, fun below => ?_,
      fun _ _ _ => rfl⟩ rfl ?_ ?_ ⟨bottom, ?_⟩
    · rwa [reached, ← reach]
    · exact copied state.top (Int.le_refl _) (reach ▸ below)
    · rw [reached]
      exact ordered
    · rw [reached]
      simp only [State.underlying] at double room ⊢
      omega
    · simp only [State.underlying, CircularArray.sizeMinusOne] at double room positive ⊢
      omega
  · have same : State.spec { state with
        current := state.current + 1, owner := .pushPut p b } = state.spec := by
      simp only [State.spec, State.contents, reached, reach, Spec.mk.injEq]
      exact ⟨CircularArray.entries_congr copied, by simp [State.held, found]⟩
    exact same ▸ .stutter

theorem pushPut_simulates (found : state.owner = .pushPut p b) :
    Simulates state .internal ((state.put state.current b (some p)).goto (.pushStore p b)) := by
  have sound := invariant.owner
  simp only [State.OwnerSound, found] at sound
  obtain ⟨rfl, fits⟩ := sound
  have reach : state.reach = state.bottom := by simp [State.reach, found]
  have ordered := invariant.ordered
  have room := invariant.room
  rw [reach] at ordered room
  let after := (state.put state.current state.bottom (some p)).goto (.pushStore p state.bottom)
  have reached : after.reach = state.bottom := rfl
  have array : after.underlying = state.underlying.put state.bottom (some p) :=
    update_self state.current _ state.arrays
  have kept : ∀ index, state.top ≤ index → index < state.bottom →
      after.underlying.get index = state.underlying.get index := by
    intro index low high
    rw [array]
    exact CircularArray.get_put_of_ne _ (by omega) (by omega) (by omega)
  constructor
  · refine invariant.follow ⟨Int.le_refl _, Nat.le_refl _, fun _ below => ?_,
      fun below => kept _ (Int.le_refl _) (reach ▸ below), fun a published below => ?_⟩ rfl ordered
      ?_ ⟨rfl, ?_, ?_⟩
    · change state.top < state.bottom
      omega
    · rcases Nat.lt_or_eq_of_le published with older | rfl
      · have different : a ≠ state.current := Nat.ne_of_lt older
        simp [State.put, State.goto, different]
      · exact kept _ (Int.le_refl _) (reach ▸ below)
    · change after.reach - state.top < after.underlying.size
      rw [array, reached]
      exact room
    · change state.bottom - state.top < after.underlying.sizeMinusOne
      rw [array]
      exact fits
    · change after.underlying.get state.bottom = some p
      rw [array]
      exact CircularArray.get_put_self _ _ _
  · have same : after.spec = state.spec := by
      simp only [State.spec, State.contents, reached, reach, Spec.mk.injEq]
      exact ⟨CircularArray.entries_congr kept, by simp [State.held, found, after, State.goto]⟩
    exact same ▸ .stutter

theorem pushStore_simulates (found : state.owner = .pushStore p b) :
    Simulates state (.pushed p) { state with bottom := b + 1, owner := .idle } := by
  have sound := invariant.owner
  simp only [State.OwnerSound, found] at sound
  obtain ⟨rfl, fits, stored⟩ := sound
  have reach : state.reach = state.bottom := by simp [State.reach, found]
  have ordered := invariant.ordered
  rw [reach] at ordered
  constructor
  · refine invariant.follow ⟨Int.le_refl _, Nat.le_refl _, fun _ below => ?_, fun _ => rfl,
      fun _ _ _ => rfl⟩ rfl ?_ ?_ trivial
    · change state.top < state.bottom + 1
      omega
    · change state.top ≤ state.bottom + 1
      omega
    · change state.bottom + 1 - state.top < state.underlying.size
      simp only [CircularArray.sizeMinusOne] at fits
      omega
  · have before : state.spec = ⟨state.underlying.entries state.top state.bottom, []⟩ := by
      simp [State.spec, State.contents, State.held, found, reach]
    have after : State.spec { state with bottom := state.bottom + 1, owner := .idle } =
        ⟨state.underlying.entries state.top state.bottom ++ [some p], []⟩ := by
      rw [← stored, ← CircularArray.entries_snoc ordered]
      rfl
    rw [before, after]
    exact .pushed

theorem popStore_simulates (found : state.owner = .popStore b a) :
    Simulates state .internal { state with bottom := b, owner := .popLoadTop b a } := by
  have sound := invariant.owner
  simp only [State.OwnerSound, found] at sound
  obtain ⟨lowered, array⟩ := sound
  have sameReach : State.reach { state with bottom := b, owner := .popLoadTop b a } =
      state.reach := by
    simp [State.reach, found, lowered]
  constructor
  · refine invariant.follow ⟨Int.le_refl _, Nat.le_refl _, fun _ below => ?_, fun _ => rfl,
      fun _ _ _ => rfl⟩ rfl ?_ ?_ ⟨rfl, array⟩
    · exact sameReach ▸ below
    · exact sameReach ▸ invariant.ordered
    · exact sameReach ▸ invariant.room
  · have same : State.spec { state with bottom := b, owner := .popLoadTop b a } = state.spec := by
      simp only [State.spec, State.contents, sameReach, Spec.mk.injEq]
      exact ⟨rfl, by simp [State.held, found]⟩
    exact same ▸ .stutter

/-- With an entry left above the top, the owner wins the bottom entry at its
load of the top: a thief that comes later finds the bottom lowered. -/
theorem popDecide_simulates (found : state.owner = .popLoadTop b a) :
    Simulates state .internal (popDecide state b a) := by
  have sound := invariant.owner
  simp only [State.OwnerSound, found] at sound
  obtain ⟨rfl, rfl⟩ := sound
  have reach : state.reach = state.bottom + 1 := by simp [State.reach, found]
  have ordered := invariant.ordered
  have room := invariant.room
  rw [reach] at ordered room
  simp only [popDecide]
  split
  · rename_i empty
    refine invariant.goto ⟨?_, rfl⟩ ?_ ?_
    · change state.top = state.bottom + 1
      omega
    · simp [State.reach, State.goto, found]
    · simp [State.held, State.goto, found]
  · rename_i nonempty
    by_cases won : state.top < state.bottom
    · have reached : (state.goto (.popGet state.bottom state.top state.current)).reach =
          state.bottom := by
        simp [State.reach, State.goto, won]
      constructor
      · refine invariant.follow ⟨Int.le_refl _, Nat.le_refl _, fun _ _ => ?_, fun _ => rfl,
          fun _ _ _ => rfl⟩ rfl ?_ ?_ ⟨rfl, rfl, Int.le_refl _, Int.le_of_lt won⟩
        · rw [reached]
          exact won
        · rw [reached]
          exact Int.le_of_lt won
        · rw [reached]
          change state.bottom - state.top < state.underlying.size
          omega
      · have before : state.spec = ⟨state.underlying.entries state.top state.bottom ++
            [state.underlying.get state.bottom], []⟩ := by
          rw [← CircularArray.entries_snoc (Int.le_of_lt won), ← reach]
          simp [State.spec, State.contents, State.held, found]
        have after : (state.goto (.popGet state.bottom state.top state.current)).spec =
            ⟨state.underlying.entries state.top state.bottom,
              [state.underlying.get state.bottom]⟩ := by
          simp only [State.spec, State.contents, reached, Spec.mk.injEq]
          exact ⟨rfl, by simp [State.held, State.goto, won, State.underlying]⟩
        rw [before, after]
        exact .take
    · refine invariant.goto ⟨rfl, rfl, Int.le_refl _, by omega⟩ ?_ ?_
      · simp [State.reach, State.goto, found, won]
      · simp [State.held, State.goto, found, won]

theorem popReset_simulates (found : state.owner = .popReset t) :
    Simulates state .popFailed { state with bottom := t, owner := .idle } := by
  have sound := invariant.owner
  simp only [State.OwnerSound, found] at sound
  obtain ⟨above, rfl⟩ := sound
  have reach : state.reach = state.top := by simp [State.reach, found, above]
  constructor
  · refine invariant.follow ⟨Int.le_refl _, Nat.le_refl _, fun _ below => ?_, fun _ => rfl,
      fun _ _ _ => rfl⟩ rfl (Int.le_refl _) ?_ trivial
    · omega
    · change state.top - state.top < state.underlying.size
      have positive := state.underlying.size_pos
      omega
  · have before : state.spec = ⟨state.underlying.entries state.top state.top, []⟩ := by
      simp [State.spec, State.contents, State.held, found, reach]
    rw [before]
    exact .popFailed

theorem popGet_simulates (found : state.owner = .popGet b t a) :
    Simulates state (popGet state b t a).2 (popGet state b t a).1 := by
  have sound := invariant.owner
  simp only [State.OwnerSound, found] at sound
  obtain ⟨rfl, rfl, below, ordered⟩ := sound
  unfold popGet
  split
  · rename_i positive
    have won : t < state.bottom := by omega
    have reach : state.reach = state.bottom := by simp [State.reach, found, won]
    have live := invariant.ordered
    have room := invariant.room
    rw [reach] at live room
    constructor
    · refine invariant.follow ⟨Int.le_refl _, Nat.le_refl _, fun _ below => ?_, fun _ => rfl,
        fun _ _ _ => rfl⟩ rfl live room trivial
      rw [reach] at below
      exact below
    · have before : state.spec = ⟨state.underlying.entries state.top state.bottom,
          [(state.arrays state.current).get state.bottom]⟩ := by
        simp [State.spec, State.contents, State.held, found, reach, won]
      rw [before]
      exact .popped
  · rename_i contested
    have last : t = state.bottom := by omega
    have lost : ¬ t < state.bottom := by omega
    refine invariant.goto ⟨last, below, ?_⟩ ?_ ?_
    · rw [last]
      rfl
    · simp [State.reach, State.goto, found, lost]
    · simp [State.held, State.goto, found, lost]

/-- The last entry goes to whoever moves the top past it. -/
theorem popCas_simulates {ret : Option α} (found : state.owner = .popCas t ret) (spurious : Bool) :
    Simulates state .internal (popCas state t ret spurious) := by
  have sound := invariant.owner
  simp only [State.OwnerSound, found] at sound
  obtain ⟨rfl, below, rfl⟩ := sound
  have reach : state.reach = state.bottom + 1 := by simp [State.reach, found]
  have positive := state.underlying.size_pos
  unfold popCas
  split
  · rename_i swapped
    obtain ⟨same, _⟩ := swapped
    constructor
    · refine invariant.follow ⟨?_, Nat.le_refl _, fun moved _ => ?_, fun _ => rfl,
        fun _ _ _ => rfl⟩ rfl (Int.le_refl _) ?_ ⟨rfl, fun _ => rfl⟩
      · change state.top ≤ state.bottom + 1
        omega
      · change state.bottom + 1 = state.top at moved
        omega
      · change state.bottom + 1 - (state.bottom + 1) < state.underlying.size
        omega
    · have before : state.spec = ⟨state.underlying.entries state.bottom state.bottom ++
            [state.underlying.get state.bottom], []⟩ := by
        rw [← CircularArray.entries_snoc (Int.le_refl _), ← reach]
        simp [State.spec, State.contents, State.held, found, same]
      rw [before, CircularArray.entries_of_le (Int.le_refl _)]
      have after : State.spec { state with
          top := state.bottom + 1
          owner := .popFinish (state.bottom + 1) (some (state.underlying.get state.bottom)) } =
          ⟨[], [state.underlying.get state.bottom]⟩ := by
        simp [State.spec, State.contents, State.held, State.reach, CircularArray.entries_of_le]
      rw [after]
      exact .take
  · refine invariant.goto ⟨rfl, by simp⟩ ?_ ?_
    · simp [State.reach, State.goto, found]
    · simp [State.held, State.goto, found]

theorem popFinish_simulates {ret : Option (Option α)} (found : state.owner = .popFinish t ret) :
    Simulates state (popFinish state t ret).2 (popFinish state t ret).1 := by
  have sound := invariant.owner
  simp only [State.OwnerSound, found] at sound
  obtain ⟨rfl, _⟩ := sound
  have reach : state.reach = state.bottom + 1 := by simp [State.reach, found]
  constructor
  · refine invariant.follow ⟨Int.le_refl _, Nat.le_refl _, fun _ below => ?_, fun _ => rfl,
      fun _ _ _ => rfl⟩ rfl ?_ ?_ trivial
    · exact reach ▸ below
    · exact reach ▸ invariant.ordered
    · exact reach ▸ invariant.room
  · have after : (popFinish state (state.bottom + 1) ret).1.spec =
        ⟨state.underlying.entries state.top (state.bottom + 1), []⟩ := rfl
    rw [after, ← reach]
    cases ret with
    | none =>
      have before : state.spec = ⟨state.underlying.entries state.top state.reach, []⟩ := by
        simp [State.spec, State.contents, State.held, found]
      rw [before]
      exact .popFailed
    | some value =>
      have before : state.spec = ⟨state.underlying.entries state.top state.reach, [value]⟩ := by
        simp [State.spec, State.contents, State.held, found]
      rw [before]
      exact .popped

theorem ownerStep_simulates {spurious : Bool} {after : State Id α} {outcome : Outcome α}
    (stepped : ownerStep state spurious = some (after, outcome)) :
    Simulates state outcome after := by
  have sound := invariant.owner
  have room := invariant.room
  rw [ownerStep] at stepped
  generalize found : state.owner = now at stepped
  cases now with
  | idle => cases stepped
  | pushLoadTop p b =>
    cases stepped
    simp only [State.OwnerSound, found] at sound
    simp only [State.reach, found] at room
    refine invariant.goto ⟨sound, Int.le_refl _, sound ▸ room⟩ ?_ ?_
    · simp [State.reach, State.goto, found]
    · simp [State.held, State.goto, found]
  | pushLoadArray p b t =>
    cases stepped
    exact pushDecide_simulates invariant found
  | growCopy p b t i =>
    cases stepped
    exact growCopy_simulates invariant found
  | pushPublish p b =>
    cases stepped
    exact pushPublish_simulates invariant found
  | pushPut p b =>
    cases stepped
    exact pushPut_simulates invariant found
  | pushStore p b =>
    cases stepped
    exact pushStore_simulates invariant found
  | popLoadArray b =>
    cases stepped
    simp only [State.OwnerSound, found] at sound
    refine invariant.goto ⟨sound, rfl⟩ ?_ ?_
    · simp [State.reach, State.goto, found]
    · simp [State.held, State.goto, found]
  | popStore b a =>
    cases stepped
    exact popStore_simulates invariant found
  | popLoadTop b a =>
    cases stepped
    exact popDecide_simulates invariant found
  | popReset t =>
    cases stepped
    exact popReset_simulates invariant found
  | popGet b t a =>
    simp only [Option.some.injEq] at stepped
    have simulated := popGet_simulates invariant found
    rwa [stepped] at simulated
  | popCas t ret =>
    cases stepped
    exact popCas_simulates invariant found spurious
  | popFinish tPlusOne ret =>
    simp only [Option.some.injEq] at stepped
    have simulated := popFinish_simulates invariant found
    rwa [stepped] at simulated

end

end OwnerSteps

section ThiefSteps

variable [DecidableEq Id] {state : State Id α} {id : Id}
variable {after : State Id α}

section

variable (invariant : Invariant state)
include invariant

theorem Invariant.move {next : Thief α} (sound : state.ThiefSound next) :
    Invariant (state.move id next) where
  ordered := invariant.ordered
  room := invariant.room
  owner := invariant.owner
  thieves other := by
    by_cases same : other = id
    · subst same
      simp only [State.move, update_self]
      exact sound
    · simp only [State.move, update_of_ne same]
      exact invariant.thieves other

theorem stealDecide_simulates (found : state.thief id = .loadArray t b) :
    Simulates state (stealDecide state id t b).2 (stealDecide state id t b).1 := by
  have sound := invariant.thieves id
  rw [found] at sound
  obtain ⟨below, live⟩ := sound
  unfold stealDecide
  split
  · exact ⟨invariant.move trivial, .stealFailed⟩
  · rename_i positive
    refine ⟨invariant.move ⟨below, Nat.le_refl _, fun same => ?_⟩, .stutter⟩
    exact ⟨live same (by omega), rfl⟩

theorem Invariant.advanceTop (live : state.top < state.reach) :
    State.OwnerSound { state with top := state.top + 1, thief := update state.thief id .idle } := by
  have sound := invariant.owner
  unfold State.OwnerSound at sound ⊢
  cases found : state.owner with
  | idle => trivial
  | pushLoadTop | popLoadArray | popStore | popLoadTop =>
    simp only [found] at sound ⊢
    exact sound
  | pushLoadArray p b t =>
    simp only [found] at sound ⊢
    obtain ⟨bottom, below, near⟩ := sound
    exact ⟨bottom, by omega, near⟩
  | growCopy p b t i =>
    simp only [found] at sound ⊢
    obtain ⟨bottom, below, near, rest⟩ := sound
    exact ⟨bottom, by omega, near, rest⟩
  | pushPublish p b =>
    simp only [found] at sound ⊢
    obtain ⟨bottom, grown, copied⟩ := sound
    exact ⟨bottom, grown, fun index low high => copied index (by omega) high⟩
  | pushPut p b =>
    simp only [found] at sound ⊢
    obtain ⟨bottom, fits⟩ := sound
    refine ⟨bottom, ?_⟩
    change b - (state.top + 1) < state.underlying.sizeMinusOne
    omega
  | pushStore p b =>
    simp only [found] at sound ⊢
    obtain ⟨bottom, fits, stored⟩ := sound
    refine ⟨bottom, ?_, stored⟩
    change b - (state.top + 1) < state.underlying.sizeMinusOne
    omega
  | popReset t =>
    simp only [found] at sound ⊢
    simp only [State.reach, found] at live
    omega
  | popGet b t a =>
    simp only [found] at sound ⊢
    obtain ⟨bottom, array, below, ordered⟩ := sound
    exact ⟨bottom, array, by omega, ordered⟩
  | popCas t ret =>
    simp only [found] at sound ⊢
    obtain ⟨bottom, below, value⟩ := sound
    exact ⟨bottom, by omega, value⟩
  | popFinish tPlusOne ret =>
    simp only [found] at sound ⊢
    simp only [State.reach, found] at live
    obtain ⟨bottom, taken⟩ := sound
    exact ⟨bottom, fun won => by have exhausted := taken won; omega⟩

theorem stealCas_simulates {ret : Option α}
    (found : state.thief id = .cas t ret) (spurious : Bool) :
    Simulates state (stealCas state id t ret spurious).2
      (stealCas state id t ret spurious).1 := by
  have sound := invariant.thieves id
  rw [found] at sound
  unfold stealCas
  split
  · rename_i swapped
    obtain ⟨rfl, _⟩ := swapped
    obtain ⟨live, rfl⟩ := sound.2 rfl
    have room := invariant.room
    have owner : State.OwnerSound
        { state with top := state.top + 1, thief := update state.thief id .idle } :=
      invariant.advanceTop live
    have follows : Follows state
        { state with top := state.top + 1, thief := update state.thief id .idle } := by
      refine ⟨?_, Nat.le_refl _, fun moved _ => ?_, fun _ => rfl, fun _ _ _ => rfl⟩
      · change state.top ≤ state.top + 1
        omega
      · change state.top + 1 = state.top at moved
        omega
    constructor
    · refine ⟨live, ?_, owner, fun other => ?_⟩
      · change state.reach - (state.top + 1) < state.underlying.size
        omega
      · by_cases same : other = id
        · subst same
          simp only [update_self]
          trivial
        · simp only [update_of_ne same]
          exact follows.thiefSound (invariant.thieves other)
    · have before : state.spec = ⟨state.underlying.get state.top ::
          state.underlying.entries (state.top + 1) state.reach, state.held⟩ := by
        simp only [State.spec, State.contents, CircularArray.entries_cons live]
      rw [before]
      exact .stolen
  · exact ⟨invariant.move trivial, .stealFailed⟩

theorem thiefStep_simulates {spurious : Bool} {outcome : Outcome α}
    (stepped : thiefStep state id spurious = some (after, outcome)) :
    Simulates state outcome after := by
  have sound := invariant.thieves id
  rw [thiefStep] at stepped
  generalize found : state.thief id = now at stepped
  cases now with
  | idle => cases stepped
  | loadBottom t =>
    cases stepped
    rw [found] at sound
    have reaches := state.bottom_le_reach
    exact ⟨invariant.move ⟨sound, fun _ below => by omega⟩, .stutter⟩
  | loadArray t b =>
    simp only [Option.some.injEq] at stepped
    have simulated := stealDecide_simulates invariant found
    rwa [stepped] at simulated
  | get t a =>
    cases stepped
    rw [found] at sound
    exact ⟨invariant.move ⟨sound.1, sound.2.2⟩, .stutter⟩
  | cas t ret =>
    simp only [Option.some.injEq] at stepped
    have simulated := stealCas_simulates invariant found spurious
    rwa [stepped] at simulated

theorem advance_simulates {action : Action Id α} {outcome : Outcome α}
    (stepped : advance state action = some (after, outcome)) :
    Simulates state outcome after := by
  cases action with
  | push p =>
    rw [advance] at stepped
    generalize found : state.owner = now at stepped
    cases now with
    | idle =>
      cases stepped
      refine invariant.goto rfl ?_ ?_
      · simp [State.reach, State.goto, found]
      · simp [State.held, State.goto, found]
    | _ => cases stepped
  | pop =>
    rw [advance] at stepped
    generalize found : state.owner = now at stepped
    cases now with
    | idle =>
      cases stepped
      refine invariant.goto (Int.sub_add_cancel _ _) ?_ ?_
      · simp [State.reach, State.goto, found]
      · simp [State.held, State.goto, found]
    | _ => cases stepped
  | owner spurious => exact ownerStep_simulates invariant stepped
  | steal id =>
    rw [advance] at stepped
    generalize found : state.thief id = now at stepped
    cases now with
    | idle =>
      cases stepped
      exact ⟨invariant.move (Int.le_refl _), .stutter⟩
    | _ => cases stepped
  | thief id spurious => exact thiefStep_simulates invariant stepped

theorem step_simulates {action : Action Id α}
    (stepped : (machine Id α).step state action = some after) :
    Simulates state (outcome state action) after := by
  obtain ⟨⟨next, result⟩, advanced, rfl⟩ := Option.map_eq_some_iff.mp stepped
  have simulated := advance_simulates invariant advanced
  simpa [outcome, advanced] using simulated

end

end ThiefSteps

theorem Spec.Step.conserves {before after : Spec (Option α)} {outcome : Outcome α}
    (step : Spec.Step before outcome after) :
    (before.held ++ before.contents ++ outcome.pushes).Perm
      (outcome.takes ++ (after.held ++ after.contents)) := by
  cases step <;> simp [Outcome.pushes, Outcome.takes]

section Runs

variable [DecidableEq Id] {state : State Id α} {history : History Id α}

theorem reachable_invariant (reachable : (machine Id α).Reachable state) : Invariant state :=
  Machine.Reachable.invariant Invariant (fun _ initial => initial ▸ init_invariant)
    (fun _ _ _ invariant stepped => (step_simulates invariant stepped).invariant) reachable

theorem run_conserves (run : (machine Id α).Run history state) :
    (pushed history).Perm (returned history ++ (state.held ++ state.contents)) := by
  induction run with
  | start initial =>
    obtain rfl : _ = init := initial
    rfl
  | @step history before after action run stepped ih =>
    have step := (step_simulates (reachable_invariant run.reachable) stepped).step.conserves
    have pushes : pushed (history ++ [(before, action)]) =
        pushed history ++ (outcome before action).pushes := by simp [pushed]
    have takes : returned (history ++ [(before, action)]) =
        returned history ++ (outcome before action).takes := by simp [returned]
    rw [pushes, takes]
    calc
      _ ~ returned history ++ (before.held ++ before.contents) ++ (outcome before action).pushes :=
        ih.append_right _
      _ = returned history ++ (before.held ++ before.contents ++ (outcome before action).pushes) :=
        List.append_assoc _ _ _
      _ ~ returned history ++ ((outcome before action).takes ++ (after.held ++ after.contents)) :=
        step.append_left _
      _ = _ := (List.append_assoc _ _ _).symm

/-- Every element whose push has returned is returned by exactly one pop or
steal, is about to be, or is in the deque.  At rest the contents are the entries
from the top up to the bottom; a steal removes the oldest of them, a pop the
newest, and EMPTY and ABORT remove nothing. -/
theorem deque_conserves (run : (machine Id α).Run history state) :
    (pushed history).Perm (returned history ++ (state.held ++ state.contents)) ∧
    (state.owner = .idle → state.held = [] ∧
      state.contents = state.underlying.entries state.top state.bottom) ∧
    ∀ action after, (machine Id α).step state action = some after →
      Spec.Step state.spec (outcome state action) after.spec := by
  refine ⟨run_conserves run, fun idle => ?_, fun action after stepped => ?_⟩
  · simp [State.held, State.contents, State.reach, idle]
  · exact (step_simulates (reachable_invariant run.reachable) stepped).step

/-- A thief and the owner take the two elements of a deque at the same time. -/
theorem deque_conserves_contended :
    ∃ (history : History Unit Nat) (state : State Unit Nat), (machine Unit Nat).Run history state ∧
      returned history = [some 8, some 7] ∧
      (pushed history).Perm ([some 8, some 7] ++ (state.held ++ state.contents)) := by
  have executed : (machine Unit Nat).exec init
      [.push 7, .owner false, .owner false, .owner false, .owner false,
        .push 8, .owner false, .owner false, .owner false, .owner false,
        .steal (), .thief () false, .pop, .owner false, .owner false, .thief () false,
        .owner false, .thief () false, .owner false, .thief () false] = some _ := rfl
  have run := Machine.run_of_exec rfl executed
  exact ⟨_, _, run, rfl, (deque_conserves run).1⟩

end Runs

end LibFiber.Deque
