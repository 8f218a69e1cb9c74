import Mathlib.Data.List.Basic
import Mathlib.Logic.Function.Basic

namespace LibFiber.Data

open Function

/-! Linked lists behind a pointer that carries a version.

Every successful double-word compare-and-swap advances the version, so a reader
that has read the version first and the pointer later knows, for as long as the
version is the one it read, that nothing it has seen has changed.
-/

structure Versioned (P : Type u) where
  counter : Nat
  head : P
deriving DecidableEq, Repr

namespace Versioned

variable {P : Type u} {word after : Versioned P} {counter : Nat} {fact : Prop}

/-- `compare_and_swap2` with the advanced counter. -/
def swap [DecidableEq P] (word : Versioned P) (counter : Nat) (head new : P) :
    Option (Versioned P) :=
  if word.counter = counter ∧ word.head = head then some ⟨counter + 1, new⟩ else none

/-- Somebody has read the counter and may rely on `fact` while it stays. -/
def Seen (word : Versioned P) (counter : Nat) (fact : Prop) : Prop :=
  counter ≤ word.counter ∧ (word.counter = counter → fact)

theorem Seen.weaken {weaker : Prop} (seen : word.Seen counter fact) (implies : fact → weaker) :
    word.Seen counter weaker :=
  ⟨seen.1, fun same => implies (seen.2 same)⟩

theorem Seen.stale {other : Prop} (seen : word.Seen counter fact)
    (later : word.counter < after.counter) : after.Seen counter other := by
  refine ⟨?_, fun same => ?_⟩
  · have := seen.1
    omega
  · have := seen.1
    omega

theorem swap_eq_some [DecidableEq P] {head new : P}
    (swapped : word.swap counter head new = some after) :
    word.counter = counter ∧ word.head = head ∧ after = ⟨word.counter + 1, new⟩ := by
  unfold swap at swapped
  split at swapped
  · rename_i equal
    cases swapped
    exact ⟨equal.1, equal.2, by rw [equal.1]⟩
  · contradiction

end Versioned

/-- Starting at a pointer and following `next`, the nodes visited are those of
the list and the pointer arrived at is the last argument. -/
inductive Chain {N : Type u} {P : Type v} (link next : N → P) : P → List N → P → Prop where
  | nil (pointer : P) : Chain link next pointer [] pointer
  | cons {node : N} {rest : List N} {stop : P} :
      Chain link next (next node) rest stop → Chain link next (link node) (node :: rest) stop

namespace Chain

variable {N : Type u} {P : Type v}

theorem congr (chain : Chain link next start nodes stop)
    (same : ∀ node ∈ nodes, other node = next node) : Chain link other start nodes stop := by
  induction chain with
  | nil => exact .nil _
  | @cons node rest stop _ ih =>
    refine .cons ?_
    rw [same node List.mem_cons_self]
    exact ih fun node member => same node (List.mem_cons_of_mem _ member)

theorem update_of_notMem [DecidableEq N] {node : N} {pointer : P}
    (chain : Chain link next start nodes stop) (outside : node ∉ nodes) :
    Chain link (update next node pointer) start nodes stop := by
  refine chain.congr fun visited member => update_of_ne ?_ _ _
  rintro rfl
  exact outside member

theorem nil_inv (chain : Chain link next start [] stop) : start = stop := by
  cases chain
  rfl

theorem cons_inv (chain : Chain link next start (node :: rest) stop) :
    start = link node ∧ Chain link next (next node) rest stop := by
  cases chain with
  | cons behind => exact ⟨rfl, behind⟩

end Chain

end LibFiber.Data
