import Mathlib.Algebra.Group.Nat.Defs

namespace LibFiber.PowerOf2

/-! The slots at the end of a `lockfree_ring_buffer_t` and of a `fiber_bounded_channel_t`,
which are created in the same way.  `header` is the `sizeof` of the structure. -/

def size (powerOf2Size : Nat) : Nat := 2 ^ powerOf2Size

/-- The slot of a position: its bits below `power_of_2_mod`. -/
def index (powerOf2Size position : Nat) : Nat := position &&& (size powerOf2Size - 1)

/-- `required_size`, which is a `uint32_t`. -/
def requiredSize (header powerOf2Size : Nat) : Nat := (header + size powerOf2Size * 8) % 2 ^ 32

/-- The slots in the memory that is allocated. -/
def allocated (header powerOf2Size : Nat) : Nat := (requiredSize header powerOf2Size - header) / 8

theorem size_pos (powerOf2Size : Nat) : 0 < size powerOf2Size := Nat.two_pow_pos _

theorem index_eq (powerOf2Size position : Nat) :
    index powerOf2Size position = position % size powerOf2Size :=
  Nat.and_two_pow_sub_one_eq_mod _ _

/-- From 29 on the sum wraps around. -/
theorem allocated_eq_size (header powerOf2Size : Nat) (small : header < 2 ^ 31)
    (within : powerOf2Size < 29) : allocated header powerOf2Size = size powerOf2Size := by
  have bounded : size powerOf2Size ≤ 2 ^ 28 :=
    Nat.pow_le_pow_right (by decide) (Nat.le_of_lt_succ within)
  rw [allocated, requiredSize, Nat.mod_eq_of_lt (by omega)]
  omega

theorem index_lt_allocated (header powerOf2Size position : Nat) (small : header < 2 ^ 31)
    (within : powerOf2Size < 29) :
    index powerOf2Size position < allocated header powerOf2Size := by
  rw [index_eq, allocated_eq_size header powerOf2Size small within]
  exact Nat.mod_lt _ (size_pos _)

theorem allocated_eq_zero (header powerOf2Size : Nat) (small : header < 2 ^ 31)
    (member : powerOf2Size ∈ [29, 30, 31]) :
    (0 < powerOf2Size ∧ powerOf2Size < 32) ∧ requiredSize header powerOf2Size = header ∧
      allocated header powerOf2Size = 0 := by
  simp only [List.mem_cons, List.not_mem_nil, or_false] at member
  rcases member with rfl | rfl | rfl <;> simp only [allocated, requiredSize, size] <;> omega

end LibFiber.PowerOf2
