import Mathlib.Algebra.Order.Group.Unbundled.Int
import Mathlib.Logic.Function.Basic

namespace LibFiber.Data

open Function

/-! A circular array of `2 ^ logSize` slots, read and written at unbounded
indices.  Fresh memory is indeterminate: reading it gives `none`.
-/

structure CircularArray (α : Type u) where
  logSize : Nat
  data : Nat → Option α

namespace CircularArray

variable {α : Type u} {array other : CircularArray α}

def create (logSize : Nat) : CircularArray α :=
  ⟨logSize, fun _ => none⟩

def size (array : CircularArray α) : Int :=
  2 ^ array.logSize

def sizeMinusOne (array : CircularArray α) : Int :=
  array.size - 1

/-- The bits of the index that `size_minus_one` keeps. -/
def slot (array : CircularArray α) (index : Int) : Nat :=
  (index % array.size).toNat

def get (array : CircularArray α) (index : Int) : Option α :=
  array.data (array.slot index)

def put (array : CircularArray α) (index : Int) (value : Option α) : CircularArray α :=
  { array with data := update array.data (array.slot index) value }

theorem size_pos (array : CircularArray α) : 0 < array.size := by
  unfold size
  exact Int.pow_pos (by decide)

theorem size_double (grown : other.logSize = array.logSize + 1) : other.size = 2 * array.size := by
  unfold size
  rw [grown, Int.pow_succ, Int.mul_comm]

theorem slot_inj (below : i - j < array.size) (above : j - i < array.size)
    (same : array.slot i = array.slot j) : i = j := by
  have left := Int.emod_nonneg i array.size_pos.ne'
  have right := Int.emod_nonneg j array.size_pos.ne'
  have residues : i % array.size = j % array.size := by
    unfold slot at same
    omega
  have divides : array.size ∣ i - j :=
    Int.dvd_of_emod_eq_zero (Int.emod_eq_emod_iff_emod_sub_eq_zero.mp residues)
  have zero := Int.eq_zero_of_abs_lt_dvd divides (abs_lt.mpr ⟨by omega, below⟩)
  omega

@[simp] theorem get_put_self (array : CircularArray α) (index : Int) (value : Option α) :
    (array.put index value).get index = value := by
  simp [get, put, slot, size]

theorem get_put_of_ne (value : Option α) (different : j ≠ i) (below : j - i < array.size)
    (above : i - j < array.size) : (array.put i value).get j = array.get j := by
  have apart : array.slot j ≠ array.slot i := fun same => different (slot_inj below above same)
  exact update_of_ne apart value array.data

/-- The entries at the indices from `low` up to `high`, which is excluded. -/
def entries (array : CircularArray α) (low high : Int) : List (Option α) :=
  (List.range (high - low).toNat).map fun offset : Nat => array.get (low + offset)

theorem entries_of_le (empty : high ≤ low) : array.entries low high = [] := by
  have none : (high - low).toNat = 0 := by omega
  simp [entries, none]

theorem entries_snoc (ordered : low ≤ high) :
    array.entries low (high + 1) = array.entries low high ++ [array.get high] := by
  have longer : (high + 1 - low).toNat = (high - low).toNat + 1 := by omega
  have last : low + ((high - low).toNat : Int) = high := by omega
  simp only [entries, longer, List.range_succ, List.map_append, List.map_cons, List.map_nil, last]

theorem entries_cons (ordered : low < high) :
    array.entries low high = array.get low :: array.entries (low + 1) high := by
  obtain ⟨count, rfl⟩ : ∃ count : Nat, high = low + 1 + count := ⟨(high - low - 1).toNat, by omega⟩
  induction count with
  | zero => simp [entries_snoc, entries_of_le]
  | succ count ih =>
    have shape : low + 1 + ((count + 1 : Nat) : Int) = low + 1 + (count : Int) + 1 := by
      omega
    rw [shape, entries_snoc (by omega), entries_snoc (by omega), ih (by omega)]
    rfl

theorem entries_congr (agree : ∀ index, low ≤ index → index < high →
    array.get index = other.get index) : array.entries low high = other.entries low high := by
  refine List.map_congr_left fun offset member => ?_
  have bound := List.mem_range.mp member
  exact agree _ (by omega) (by omega)

end CircularArray

end LibFiber.Data
