import Mathlib.Data.List.Basic
import Mathlib.Logic.Function.Basic

namespace LibFiber.Data

open Function

/-! Slots that are used round after round.

The position `p` of a bounded buffer has the slot `p % size`.  In every round a
slot is claimed for its position, written, and released: the position is taken off
the front and the slot is cleared, in one order or the other.  A ghost counter per
slot says how many of these steps it has behind it, four to a round.
-/

inductive Release where
  | takeFirst
  | clearFirst
deriving DecidableEq, Repr

/-- The step of the round that takes the position off the front. -/
def Release.takeAt : Release → Nat
  | .takeFirst => 2
  | .clearFirst => 3

def Release.clearAt : Release → Nat
  | .takeFirst => 3
  | .clearFirst => 2

/-- `turn` is how far each slot is, and `values` what the positions from 0 up to
`high` were claimed for. -/
structure SlotCycle {V : Type u} (size : Nat) (release : Release) (high low : Nat)
    (cell : Nat → Option V) (values : List V) (turn : Nat → Nat) : Prop where
  sized : 0 < size
  count : values.length = high
  claimed : ∀ position, position < high ↔ 4 * (position / size) < turn (position % size)
  taken : ∀ position,
    position < low ↔ 4 * (position / size) + release.takeAt < turn (position % size)
  filled : ∀ position, 4 * (position / size) + 2 ≤ turn (position % size) →
    turn (position % size) ≤ 4 * (position / size) + release.clearAt →
    cell (position % size) = values[position]?
  empty : ∀ position, 4 * (position / size) ≤ turn (position % size) →
    turn (position % size) < 4 * (position / size) + 4 →
    turn (position % size) < 4 * (position / size) + 2 ∨
      4 * (position / size) + release.clearAt < turn (position % size) →
    cell (position % size) = none

/-- One more step of the slot. -/
def tick (turn : Nat → Nat) (slot : Nat) : Nat → Nat := update turn slot (turn slot + 1)

@[simp] theorem tick_self (turn : Nat → Nat) (slot : Nat) : tick turn slot slot = turn slot + 1 :=
  update_self _ _ _

variable {position : Nat}

theorem tick_of_ne (apart : other ≠ slot) :
    tick turn slot other = turn other :=
  update_of_ne apart _ _

theorem turn_le_tick (turn : Nat → Nat) (slot other : Nat) : turn other ≤ tick turn slot other := by
  by_cases same : other = slot
  · rw [same, tick_self]
    exact Nat.le_succ _
  · exact Nat.le_of_eq (tick_of_ne same).symm

theorem le_iff_of_residue (same : position % size = other % size) :
    position ≤ other ↔ position / size ≤ other / size := by
  refine ⟨fun le => Nat.div_le_div_right le, fun le => ?_⟩
  rw [← Nat.div_add_mod position size, ← Nat.div_add_mod other size, same]
  exact Nat.add_le_add_right (Nat.mul_le_mul_left size le) _

theorem eq_of_residue (same : position % size = other % size)
    (round : position / size = other / size) : position = other := by
  rw [← Nat.div_add_mod position size, ← Nat.div_add_mod other size, same, round]

theorem tick_of_apart {own : Nat} (due : turn (position % size) = 4 * (position / size) + stage)
    (mine : turn (other % size) = 4 * (other / size) + own) (staged : stage < 4) (known : own < 4)
    (apart : position = other → stage ≠ own) :
    tick turn (position % size) (other % size) = turn (other % size) := by
  refine tick_of_ne fun same => ?_
  rw [same, due] at mine
  have rounds : other / size = position / size := by omega
  exact apart (eq_of_residue same rounds).symm (by omega)

namespace SlotCycle

variable {V : Type u} {cell : Nat → Option V}
variable {values : List V}

theorem create (sized : 0 < size) :
    SlotCycle size release 0 0 (fun _ => none : Nat → Option V) [] fun _ => 0 where
  sized := sized
  count := rfl
  claimed position := by simp
  taken position := by simp
  filled position ahead := by omega
  empty _ _ _ _ := rfl

section

variable (cycle : SlotCycle size release high low cell values turn)
include cycle

theorem low_le_high : low ≤ high := by
  by_contra above
  have taken := (cycle.taken high).mp (by omega)
  have claimed := (cycle.claimed high).mpr (by omega)
  omega

theorem high_le :
    high ≤ low + size := by
  by_contra above
  have claimed := (cycle.claimed (low + size)).mp (by omega)
  rw [Nat.add_mod_right, Nat.add_div_right low cycle.sized] at claimed
  have taken := (cycle.taken low).mpr (by cases release <;> simp only [Release.takeAt] <;> omega)
  omega

theorem turn_high_le :
    turn (high % size) ≤ 4 * (high / size) := by
  by_contra ahead
  have claimed := (cycle.claimed high).mpr (by omega)
  omega

theorem turn_low_le :
    turn (low % size) ≤ 4 * (low / size) + release.takeAt := by
  by_contra ahead
  have taken := (cycle.taken low).mpr (by omega)
  omega

theorem vacant (seen : front ≤ low) (room : position < front + size)
    (nothing : cell (position % size) = none) : 4 * (position / size) ≤ turn (position % size) := by
  by_cases first : position < size
  · rw [Nat.div_eq_of_lt first]
    exact Nat.zero_le _
  · obtain ⟨earlier, rfl⟩ : ∃ earlier, position = earlier + size := ⟨position - size, by omega⟩
    have taken := (cycle.taken earlier).mp (by omega)
    have filled := cycle.filled earlier
    rw [Nat.add_mod_right] at nothing ⊢
    rw [Nat.add_div_right earlier cycle.sized]
    cases release with
    | clearFirst =>
      simp only [Release.takeAt] at taken
      omega
    | takeFirst =>
      -- Taken and not cleared, the slot would still have its value.
      by_contra behind
      simp only [Release.takeAt, Release.clearAt] at taken filled
      have kept := filled (by omega) (by omega)
      have claimed : earlier < values.length := by
        rw [cycle.count]
        exact (cycle.claimed earlier).mpr (by omega)
      rw [nothing, List.getElem?_eq_getElem claimed] at kept
      cases kept

theorem found (below : position < high) (there : cell (position % size) = some value) :
    4 * (position / size) + 2 ≤ turn (position % size) ∧
      (turn (position % size) ≤ 4 * (position / size) + 2 → values[position]? = some value) := by
  have claimed := (cycle.claimed position).mp below
  have written : 4 * (position / size) + 2 ≤ turn (position % size) := by
    by_contra behind
    have nothing := cycle.empty position (by omega) (by omega) (.inl (by omega))
    rw [there] at nothing
    cases nothing
  refine ⟨written, fun fresh => ?_⟩
  rw [← there]
  refine (cycle.filled position written ?_).symm
  cases release <;> simp only [Release.clearAt] <;> omega

theorem claimed_tick (due : turn (position % size) = 4 * (position / size) + stage)
    (begun : 0 < stage) (within : stage < 4) (other : Nat) :
    other < high ↔ 4 * (other / size) < tick turn (position % size) (other % size) := by
  have claimed := cycle.claimed other
  by_cases same : other % size = position % size
  · rw [same, due] at claimed
    rw [same, tick_self, due, claimed]
    omega
  · rw [tick_of_ne same]
    exact claimed

theorem taken_tick (due : turn (position % size) = 4 * (position / size) + stage)
    (keeps : stage ≠ release.takeAt) (within : stage < 4) (other : Nat) :
    other < low ↔
      4 * (other / size) + release.takeAt < tick turn (position % size) (other % size) := by
  have taken := cycle.taken other
  by_cases same : other % size = position % size
  · rw [same, due] at taken
    rw [same, tick_self, due, taken]
    cases release <;> simp only [Release.takeAt] at keeps ⊢ <;> omega
  · rw [tick_of_ne same]
    exact taken

theorem claim (due : turn (high % size) = 4 * (high / size)) :
    SlotCycle size release (high + 1) low cell (values ++ [value]) (tick turn (high % size)) where
  sized := cycle.sized
  count := by simp [cycle.count]
  claimed position := by
    by_cases same : position % size = high % size
    · rw [same, tick_self, due, Nat.lt_succ_iff, le_iff_of_residue same]
      omega
    · have apart : position ≠ high := fun equal => same (by rw [equal])
      rw [tick_of_ne same, ← cycle.claimed position]
      omega
  taken := cycle.taken_tick (due.trans (Nat.add_zero _).symm) (by cases release <;> decide)
    (by decide)
  filled position := by
    by_cases same : position % size = high % size
    · rw [same, tick_self, due]
      intro lower upper
      cases release <;> simp only [Release.clearAt] at upper <;> omega
    · rw [tick_of_ne same]
      intro lower upper
      have below : position < values.length := by
        rw [cycle.count]
        exact (cycle.claimed position).mpr (by omega)
      rw [List.getElem?_append_left below]
      exact cycle.filled position lower upper
  empty position := by
    by_cases same : position % size = high % size
    · rw [same, tick_self, due]
      intro _ _ _
      exact cycle.empty high (by omega) (by omega) (.inl (by omega))
    · rw [tick_of_ne same]
      exact cycle.empty position

theorem write (due : turn (position % size) = 4 * (position / size) + 1)
    (mine : values[position]? = some value) :
    SlotCycle size release high low (update cell (position % size) (some value)) values
      (tick turn (position % size)) where
  sized := cycle.sized
  count := cycle.count
  claimed := cycle.claimed_tick due (by decide) (by decide)
  taken := cycle.taken_tick due (by cases release <;> decide) (by decide)
  filled other := by
    by_cases same : other % size = position % size
    · rw [same, tick_self, due, update_self]
      intro lower upper
      have round : other / size = position / size := by
        cases release <;> simp only [Release.clearAt] at upper <;> omega
      rw [eq_of_residue same round, mine]
    · rw [tick_of_ne same, update_of_ne same]
      exact cycle.filled other
  empty other := by
    by_cases same : other % size = position % size
    · rw [same, tick_self, due]
      intro lower upper outside
      cases release <;> simp only [Release.clearAt] at outside <;> omega
    · rw [tick_of_ne same, update_of_ne same]
      exact cycle.empty other

theorem take (due : turn (low % size) = 4 * (low / size) + release.takeAt) :
    SlotCycle size release high (low + 1) cell values (tick turn (low % size)) where
  sized := cycle.sized
  count := cycle.count
  claimed := cycle.claimed_tick due (by cases release <;> decide) (by cases release <;> decide)
  taken other := by
    by_cases same : other % size = low % size
    · rw [same, tick_self, due, Nat.lt_succ_iff, le_iff_of_residue same]
      omega
    · have apart : other ≠ low := fun equal => same (by rw [equal])
      rw [tick_of_ne same, ← cycle.taken other]
      omega
  filled other := by
    by_cases same : other % size = low % size
    · rw [same, tick_self, due]
      intro lower upper
      have round : other / size = low / size := by
        cases release <;> simp only [Release.takeAt, Release.clearAt] at lower upper <;> omega
      rw [eq_of_residue same round]
      refine cycle.filled low ?_ ?_
      · cases release <;> simp only [Release.takeAt] at due <;> omega
      · omega
    · rw [tick_of_ne same]
      exact cycle.filled other
  empty other := by
    by_cases same : other % size = low % size
    · rw [same, tick_self, due]
      intro lower upper outside
      refine cycle.empty low (by omega) ?_ ?_
      · cases release <;> simp only [Release.takeAt] at due <;> omega
      · cases release <;> simp only [Release.takeAt, Release.clearAt] at * <;> omega
    · rw [tick_of_ne same]
      exact cycle.empty other

theorem clear (due : turn (position % size) = 4 * (position / size) + release.clearAt) :
    SlotCycle size release high low (update cell (position % size) none) values
      (tick turn (position % size)) where
  sized := cycle.sized
  count := cycle.count
  claimed := cycle.claimed_tick due (by cases release <;> decide) (by cases release <;> decide)
  taken := cycle.taken_tick due (by cases release <;> decide) (by cases release <;> decide)
  filled other := by
    by_cases same : other % size = position % size
    · rw [same, tick_self, due]
      intro lower upper
      cases release <;> simp only [Release.clearAt] at lower upper <;> omega
    · rw [tick_of_ne same, update_of_ne same]
      exact cycle.filled other
  empty other := by
    by_cases same : other % size = position % size
    · intro _ _ _
      rw [same, update_self]
    · rw [tick_of_ne same, update_of_ne same]
      exact cycle.empty other

end

end SlotCycle

end LibFiber.Data
