import Mathlib.Data.List.Basic
import Mathlib.Logic.Function.Basic

namespace LibFiber.Data

open Function

/-! Values that agents take out of a shared structure and return later.

Between the two, an agent has the value in hand.  What it returns is what it took,
in the same order.
-/

variable {T : Type u} {V : Type v} [DecidableEq T]

def own (agent : T) (values : List (T × V)) : List V :=
  (values.filter fun value => value.1 = agent).map Prod.snd

def Handed (took gave : List (T × V)) (hand : T → List V) : Prop :=
  ∀ agent, own agent took = own agent gave ++ hand agent

theorem own_append (agent : T) (values more : List (T × V)) :
    own agent (values ++ more) = own agent values ++ own agent more := by
  simp [own]

@[simp] theorem own_self (agent : T) (value : V) : own agent [(agent, value)] = [value] := by
  simp [own]

theorem own_of_ne {agent other : T} (apart : other ≠ agent) (value : V) :
    own other [(agent, value)] = [] := by
  simp [own, Ne.symm apart]

namespace Handed

variable {agent : T}

theorem start : Handed ([] : List (T × V)) [] fun _ => [] := fun _ => rfl

theorem take (handed : Handed took gave hand) (free : hand agent = []) :
    Handed (took ++ [(agent, value)]) gave (update hand agent [value]) := by
  intro other
  rw [own_append, handed other]
  by_cases same : other = agent
  · rw [same, own_self, free, update_self, List.append_nil]
  · rw [own_of_ne same, update_of_ne same, List.append_nil]

theorem give (handed : Handed took gave hand) (held : hand agent = [value]) :
    Handed took (gave ++ [(agent, value)]) (update hand agent []) := by
  intro other
  rw [own_append, handed other]
  by_cases same : other = agent
  · rw [same, own_self, held, update_self, List.append_nil]
  · rw [own_of_ne same, update_of_ne same, List.append_nil]

/-! Along a history, with the values picked out of its steps. -/

variable {S : Type w} {gives : S → Option (T × V)}

theorem carry (handed : Handed (history.filterMap takes) (history.filterMap gives) hand)
    (silent : takes last = none) (mute : gives last = none) (same : later = hand) :
    Handed ((history ++ [last]).filterMap takes) ((history ++ [last]).filterMap gives) later := by
  rw [same]
  simpa [silent, mute] using handed

theorem taken (handed : Handed (history.filterMap takes) (history.filterMap gives) hand)
    (happens : takes last = some (agent, value)) (mute : gives last = none)
    (free : hand agent = []) (moved : later = update hand agent [value]) :
    Handed ((history ++ [last]).filterMap takes) ((history ++ [last]).filterMap gives) later := by
  rw [moved]
  simpa [happens, mute] using handed.take free

theorem given (handed : Handed (history.filterMap takes) (history.filterMap gives) hand)
    (silent : takes last = none) (happens : gives last = some (agent, value))
    (held : hand agent = [value]) (moved : later = update hand agent []) :
    Handed ((history ++ [last]).filterMap takes) ((history ++ [last]).filterMap gives) later := by
  rw [moved]
  simpa [silent, happens] using handed.give held

end Handed

end LibFiber.Data
