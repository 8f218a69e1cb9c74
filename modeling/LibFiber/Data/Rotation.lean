import Mathlib.Algebra.GroupWithZero.Nat
import Mathlib.Data.List.Nodup
import Mathlib.Order.Interval.Finset.Nat

namespace LibFiber.Data

/-! Taking turns: consecutive counts, each modulo the number of parties. -/

variable {size : Nat} [NeZero size]

/-- The parties whose turn it is at `length` counts in a row. -/
def turns (size : Nat) [NeZero size] (start length : Nat) : List (Fin size) :=
  (List.range' start length).map (Fin.ofNat size)

theorem turns_succ (start length : Nat) :
    turns size start (length + 1) =
      turns size start length ++ [Fin.ofNat size (start + length)] := by
  rw [turns, List.range'_1_concat, List.map_append]
  rfl

theorem turns_nodup (start : Nat) : (turns size start size).Nodup := by
  refine List.Nodup.map_on ?_ (List.nodup_range' 1)
  intro left within right also same
  have residues : left % size = right % size := by
    have values := congrArg Fin.val same
    rwa [Fin.val_ofNat, Fin.val_ofNat] at values
  have window : ∀ count, count ∈ List.range' start size →
      count ∈ Finset.Ico start (start + size) := by
    intro count member
    rwa [Finset.mem_Ico, ← List.mem_range'_1]
  exact Nat.mod_injOn_Ico start size (window left within) (window right also) residues

theorem mem_turns (start : Nat) (party : Fin size) : party ∈ turns size start size := by
  have residue : party.val ∈ (Finset.Ico start (start + size)).image (· % size) := by
    rw [Nat.image_Ico_mod]
    exact Finset.mem_range.mpr party.isLt
  obtain ⟨count, within, same⟩ := Finset.mem_image.mp residue
  refine List.mem_map.mpr ⟨count, ?_, Fin.ext ((Fin.val_ofNat size count).trans same)⟩
  rwa [List.mem_range'_1, ← Finset.mem_Ico]

theorem count_turns (start : Nat) (party : Fin size) : (turns size start size).count party = 1 :=
  List.count_eq_one_of_mem (turns_nodup start) (mem_turns start party)

end LibFiber.Data
