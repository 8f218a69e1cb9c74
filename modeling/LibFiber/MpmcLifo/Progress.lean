import LibFiber.MpmcLifo.Machine
import LibFiber.Semantics.Progress

namespace LibFiber.MpmcLifo

open Data Semantics Function

variable {Thread Node : Type} [DecidableEq Node]

/-- The accesses that a call has left while the lifo stays as it is. -/
def Phase.ahead (data : Versioned (Option Node)) : Phase Node → Nat
  | .idle | .returned _ => 0
  | .push _ .counting | .pop .counting => 4
  | .push _ (.heading counter) | .pop (.heading counter) => if data.counter = counter then 3 else 7
  | .push _ (.linking counter head) =>
    if data.counter = counter ∧ data.head = head then 2 else 6
  | .push _ (.swapping counter head) =>
    if data.counter = counter ∧ data.head = head then 1 else 5
  | .pop (.following counter head) =>
    if data.counter = counter ∧ data.head = some head then 2 else 6
  | .pop (.swapping counter head _) =>
    if data.counter = counter ∧ data.head = some head then 1 else 5

variable [DecidableEq Thread]

def acts (thread : Thread) (taken : State Thread Node × Action Thread Node) : Bool :=
  taken.2 = .move thread

def begins (thread : Thread) (taken : State Thread Node × Action Thread Node) : Bool :=
  match taken.2 with
  | .push caller _ | .pop caller => caller = thread
  | _ => false

theorem Phase.ahead_le (data : Versioned (Option Node)) (phase : Phase Node) :
    phase.ahead data ≤ 7 := by
  unfold ahead
  split <;> first | decide | (split <;> decide)

theorem movePush_lowers (state : State Thread Node) (thread : Thread) (node : Node)
    (phase : PushPhase Node) :
    ((movePush state thread node phase).phase thread).ahead state.data <
      (Phase.push node phase).ahead state.data := by
  cases phase with
  | counting => simp [movePush, State.goto, Phase.ahead]
  | heading | linking =>
    simp only [movePush, State.goto, update_self, Phase.ahead, and_true]
    split <;> decide
  | swapping counter head =>
    by_cases fresh : state.data.counter = counter ∧ state.data.head = head
    all_goals simp [movePush, Versioned.swap, fresh, State.goto, Phase.ahead]

theorem movePop_lowers (state : State Thread Node) (thread : Thread) (phase : PopPhase Node) :
    ((movePop state thread phase).phase thread).ahead state.data <
      (Phase.pop phase).ahead state.data := by
  cases phase with
  | counting => simp [movePop, State.goto, Phase.ahead]
  | heading =>
    cases found : state.data.head <;>
    · simp only [movePop, found, State.goto, update_self, Phase.ahead, and_true]
      split <;> decide
  | following =>
    simp only [movePop, State.goto, update_self, Phase.ahead]
    split <;> decide
  | swapping counter head next =>
    by_cases fresh : state.data.counter = counter ∧ state.data.head = some head
    all_goals simp [movePop, Versioned.swap, fresh, State.goto, Phase.ahead]

theorem lifo_retries (thread : Thread) : (machine Thread Node).Retries State.data
    (fun state => (state.phase thread).ahead state.data) 7 (acts thread) (begins thread) where
  bounded state := Phase.ahead_le ..
  lowers before action after stepped uncalled same := by
    rw [same]
    by_cases own : action = .move thread
    · subst own
      change move before thread = some after at stepped
      cases phase : before.phase thread <;> rw [move, phase] at stepped <;> cases stepped
      all_goals simp only [acts, decide_true, if_true, Nat.add_comm 1]
      · exact movePush_lowers ..
      · exact movePop_lowers ..
    · have apart : after.phase thread = before.phase thread := by
        cases step_moves stepped with
        | fill => rfl
        | push | pop | read | link | pushed | popped =>
          refine update_of_ne ?_ _ _
          rintro rfl
          simp [begins] at own uncalled
      simp [acts, own, apart]

/-- In any stretch of any run a thread makes at most 8 accesses for each call that it
begins and for each push or pop of any thread that takes effect, and 7 more. -/
theorem lifo_lock_free (thread : Thread) (state : State Thread Node)
    (schedule : List (Action Thread Node)) :
    ((machine Thread Node).trail state schedule).countP (acts thread) ≤
      7 + 8 * ((machine Thread Node).trail state schedule).countP fun taken =>
        begins thread taken || (machine Thread Node).changes State.data taken :=
  (lifo_retries thread).countP_le state schedule

end LibFiber.MpmcLifo
