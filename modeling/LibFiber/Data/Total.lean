import Mathlib.Algebra.BigOperators.Group.Finset.Basic
import Mathlib.Algebra.BigOperators.Group.Finset.Piecewise
import Mathlib.Algebra.Order.BigOperators.Group.Finset
import Mathlib.Data.Fintype.Card
import Mathlib.Data.Fintype.BigOperators

namespace LibFiber.Data

open Function

variable {ι : Type u} {β : Type v} [Fintype ι]
variable {family : ι → β}

/-- The weight carried by a finite family.  A head count is the total of a
weight with values zero and one. -/
def total (weight : β → Nat) (family : ι → β) : Nat :=
  ∑ index, weight (family index)

theorem total_update [DecidableEq ι] (weight : β → Nat) (family : ι → β) (index : ι) (value : β) :
    total weight (update family index value) + weight (family index) =
      total weight family + weight value := by
  have rest : ∑ other ∈ Finset.univ \ {index}, weight (update family index value other) =
      ∑ other ∈ Finset.univ \ {index}, weight (family other) := by
    refine Finset.sum_congr rfl fun other member => ?_
    rw [update_of_ne (by simpa using member)]
  have updated := Finset.sum_sdiff (f := fun other => weight (update family index value other))
    (Finset.subset_univ {index})
  have original := Finset.sum_sdiff (f := fun other => weight (family other))
    (Finset.subset_univ {index})
  simp only [Finset.sum_singleton, update_self] at updated original
  unfold total
  omega

theorem total_const (weight : β → Nat) (value : β) (zero : weight value = 0) :
    total weight (fun _ : ι => value) = 0 := by
  simp [total, zero]

theorem le_total (weight : β → Nat) (family : ι → β) (index : ι) :
    weight (family index) ≤ total weight family :=
  Finset.single_le_sum (f := fun other => weight (family other))
    (fun _ _ => Nat.zero_le _) (Finset.mem_univ index)

theorem total_le_card (bounded : ∀ index, weight (family index) ≤ 1) :
    total weight family ≤ Fintype.card ι := by
  have bound := Finset.sum_le_sum (s := Finset.univ) (fun index _ => bounded index)
  simpa [total] using bound

theorem total_lt_card (bounded : ∀ index, weight (family index) ≤ 1) {index : ι}
    (absent : weight (family index) = 0) : total weight family < Fintype.card ι := by
  have bound := Finset.sum_lt_sum (s := Finset.univ) (fun index _ => bounded index)
    ⟨index, Finset.mem_univ index, by omega⟩
  simpa [total] using bound

theorem total_add (left right : β → Nat) (family : ι → β) :
    total (fun value => left value + right value) family = total left family + total right family :=
  Finset.sum_add_distrib

theorem total_congr (agree : ∀ index, left (family index) = right (family index)) :
    total left family = total right family :=
  Finset.sum_congr rfl fun index _ => agree index

theorem total_mono (below : ∀ index, left (family index) ≤ right (family index)) :
    total left family ≤ total right family :=
  Finset.sum_le_sum fun index _ => below index

theorem exists_of_total_pos
    (positive : 0 < total weight family) : ∃ index, 0 < weight (family index) := by
  by_contra none
  have zero : total weight family = 0 :=
    Finset.sum_eq_zero fun index _ => Nat.eq_zero_of_not_pos fun pos => none ⟨index, pos⟩
  omega

theorem total_eq_of_only (index : ι) (only : ∀ other ≠ index, weight (family other) = 0) :
    total weight family = weight (family index) :=
  Finset.sum_eq_single index (fun other _ different => only other different) (by simp)

theorem add_le_total [DecidableEq ι] {left right : ι} (different : left ≠ right) :
    weight (family left) + weight (family right) ≤ total weight family := by
  have pair := Finset.sum_le_sum_of_subset (f := fun other => weight (family other))
    (Finset.subset_univ {left, right})
  rw [Finset.sum_pair different] at pair
  exact pair

theorem unique_of_total_le_one [DecidableEq ι] (bounded : total weight family ≤ 1) {left right : ι}
    (leftCounts : 0 < weight (family left)) (rightCounts : 0 < weight (family right)) :
    left = right := by
  by_contra different
  have pair : weight (family left) + weight (family right) ≤ total weight family :=
    add_le_total different
  omega

end LibFiber.Data
