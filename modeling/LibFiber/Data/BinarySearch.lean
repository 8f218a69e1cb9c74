import Mathlib.Data.List.Sort

namespace LibFiber.Data

/-! Binary search in a sorted list.

The bounds are signed, as the upper one passes below zero when the needle is
smaller than everything.
-/

variable {α : Type u} [LinearOrder α] {haystack : List α}

def searchBetween (haystack : List α) (needle : α) : Nat → Int → Int → Bool
  | 0, _, _ => false
  | fuel + 1, start, stop =>
    if start ≤ stop then
      match haystack[((start + stop) / 2).toNat]? with
      | none => false
      | some value =>
        if needle < value then
          searchBetween haystack needle fuel start ((start + stop) / 2 - 1)
        else if value < needle then
          searchBetween haystack needle fuel ((start + stop) / 2 + 1) stop
        else true
    else false

/-- The interval shrinks in each round, so the length is enough fuel. -/
def binarySearch (haystack : List α) (needle : α) : Bool :=
  if haystack.length = 0 then false
  else searchBetween haystack needle haystack.length 0 (haystack.length - 1)

theorem le_of_getElem? (sorted : haystack.Pairwise (· ≤ ·)) {first second : Nat} {left right : α}
    (order : first ≤ second) (found : haystack[first]? = some left)
    (also : haystack[second]? = some right) : left ≤ right := by
  obtain ⟨_, rfl⟩ := List.getElem?_eq_some_iff.mp found
  obtain ⟨within, rfl⟩ := List.getElem?_eq_some_iff.mp also
  rcases Nat.eq_or_lt_of_le order with rfl | before
  · exact le_rfl
  · exact List.pairwise_iff_getElem.mp sorted first second _ within before

theorem searchBetween_iff (sorted : haystack.Pairwise (· ≤ ·)) {fuel : Nat} {start stop : Int}
    (low : 0 ≤ start) (high : stop < haystack.length) (enough : stop - start < fuel) :
    searchBetween haystack needle fuel start stop ↔
      ∃ index : Nat, start ≤ index ∧ index ≤ stop ∧ haystack[index]? = some needle := by
  induction fuel generalizing start stop with
  | zero =>
    have crossed : ∀ index : Nat, ¬ (start ≤ index ∧ index ≤ stop) := by omega
    simp only [searchBetween, Bool.false_eq_true, false_iff]
    rintro ⟨index, above, below, _⟩
    exact crossed index ⟨above, below⟩
  | succ fuel ih =>
    by_cases order : start ≤ stop
    · obtain ⟨middle, position⟩ : ∃ middle : Nat, (start + stop) / 2 = middle :=
        ⟨((start + stop) / 2).toNat, by omega⟩
      have within : middle < haystack.length := by omega
      have found := List.getElem?_eq_getElem within
      simp only [searchBetween, if_pos order, position, Int.toNat_natCast, found]
      split
      · -- What is equal to the needle stands before the middle.
        rename_i smaller
        rw [ih low (by omega) (by omega)]
        refine exists_congr fun index => ⟨?_, ?_⟩
        · rintro ⟨above, below, equal⟩
          exact ⟨above, by omega, equal⟩
        · rintro ⟨above, below, equal⟩
          refine ⟨above, ?_, equal⟩
          by_contra behind
          exact absurd (le_of_getElem? sorted (by omega) found equal) (not_le.mpr smaller)
      · split
        · rename_i larger
          rw [ih (by omega) high (by omega)]
          refine exists_congr fun index => ⟨?_, ?_⟩
          · rintro ⟨above, below, equal⟩
            exact ⟨by omega, below, equal⟩
          · rintro ⟨above, below, equal⟩
            refine ⟨?_, below, equal⟩
            by_contra before
            exact absurd (le_of_getElem? sorted (by omega) equal found) (not_le.mpr larger)
        · rename_i notSmaller notLarger
          have equal := le_antisymm (not_lt.mp notLarger) (not_lt.mp notSmaller)
          refine iff_of_true rfl ⟨middle, by omega, by omega, ?_⟩
          rw [found, equal]
    · simp only [searchBetween, if_neg order, Bool.false_eq_true, false_iff]
      rintro ⟨index, above, below, _⟩
      omega

theorem binarySearch_iff (sorted : haystack.Pairwise (· ≤ ·)) :
    binarySearch haystack needle ↔ needle ∈ haystack := by
  unfold binarySearch
  split
  · rename_i empty
    simp [List.length_eq_zero_iff.mp empty]
  · rw [searchBetween_iff sorted (by omega) (by omega) (by omega), List.mem_iff_getElem?]
    refine exists_congr fun index => ⟨fun found => found.2.2, fun equal => ?_⟩
    obtain ⟨within, _⟩ := List.getElem?_eq_some_iff.mp equal
    exact ⟨by omega, by omega, equal⟩

example : binarySearch [1, 3, 3, 8] 8 ∧ binarySearch [1, 3, 3, 8] 2 = false := by decide

end LibFiber.Data
