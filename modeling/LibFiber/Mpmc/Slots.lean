import LibFiber.Mpmc.Machine

namespace LibFiber.Mpmc

open Semantics Function

/-! When the hazard slots of a thread are clear. -/

section Slots

variable {Thread Node Value : Type}

/-- The slots that may be in use. -/
def Phase.mayUse (retried : Bool) : Phase Node Value → Nat → Bool
  | .idle, _ | .returned _, _ | .retiring _ _, _ => false
  | .clearingPrev _ _, index => index == 1
  | .recheckingHead _ _, index | .readingValue _ _, index | .swappingHead _ _ _, index
  | .clearingHead _ _, index => index ≤ 1
  | .loadingHead, index | .publishingHead _, index | .checkingHead _, index
  | .readingPrev _, index | .publishingPrev _ _, index | .leaving, index =>
    index == 0 || index == 1 && retried
  | .resetting _, index | .loadingTail _, index | .publishingTail _ _, index
  | .checkingTail _ _, index | .swappingTail _ _, index | .linking _ _, index
  | .unpublishing, index => index == 0

/-- A slot that is in use may be. -/
def State.Tidy (state : State Thread Node Value) (back : Bool) (thread : Thread) : Prop :=
  ∀ index, state.slot (thread, index) ≠ none → (state.phase thread).mayUse back index

theorem mayUse_resting {phase : Phase Node Value} (resting : phase.resting) (index : Nat) :
    phase.mayUse back index = false := by
  cases phase with
  | idle | returned => rfl
  | _ => cases resting

theorem Stores.mayUse {next : Phase Node Value} (stores : Stores before index node next)
    (emptied : before = .leaving → back = false) {other : Nat} (apart : other ≠ index)
    (uses : before.mayUse back other) : next.mayUse back other := by
  cases stores with
  | tail | head => exact uses
  | pushed | clearPrev | empty => simp_all [Phase.mayUse]
  | prev | clearHead =>
    simp only [Phase.mayUse, Bool.or_eq_true, Bool.and_eq_true, beq_iff_eq, decide_eq_true_eq] at *
    omega

theorem Stores.mayStore {next : Phase Node Value} (stores : Stores before index (some node) next) :
    next.mayUse back index := by
  cases stores with
  | tail | head | prev => rfl

variable [DecidableEq Thread] [DecidableEq Node]

/-- Whether the thread's call of `mpmc_fifo_trypop` has gone back to the start of its
loop with `head->prev` published. -/
def retries (thread : Thread) (retried : Bool)
    (taken : State Thread Node Value × Action Thread Node Value) : Bool :=
  match taken.2 with
  | .trypop caller => if caller = thread then false else retried
  | .move caller spurious =>
    if caller = thread then
      match taken.1.phase thread with
      | .recheckingHead head _ => retried || head != taken.1.head
      | .swappingHead head _ _ => retried || head != taken.1.head || spurious
      | _ => retried
    else retried
  | _ => retried

def retried (thread : Thread) (history : History Thread Node Value) : Bool :=
  history.foldl (retries thread) false

/-- No call that goes back with `head->prev` published finds the queue empty then. -/
def NeverEmptied (history : History Thread Node Value) : Prop :=
  ∀ earlier state thread spurious later,
    history = earlier ++ (state, .move thread spurious) :: later →
    state.phase thread = .leaving → retried thread earlier = false

theorem Reads.mayUse {state : State Thread Node Value} (index : Nat)
    (reads : Reads state spurious (state.phase thread) next)
    (uses : (state.phase thread).mayUse back index) :
    next.mayUse (retries thread back (state, .move thread spurious)) index := by
  simp only [retries, if_true]
  generalize state.phase thread = before at reads uses ⊢
  cases reads with
  | rereject changed =>
    simp only [Phase.mayUse, decide_eq_true_eq, bne_iff_ne.mpr changed, Bool.or_true, Bool.and_true,
      Bool.or_eq_true, beq_iff_eq] at uses ⊢
    omega
  | @missHead head _ _ missed =>
    have again : (back || head != state.head || spurious) := by
      by_contra fine
      simp only [Bool.or_eq_true, bne_iff_ne, not_or, not_not, Bool.not_eq_true] at fine
      exact missed ⟨fine.1.2.symm, fine.2⟩
    simp only [Phase.mayUse, decide_eq_true_eq, again, Bool.and_true, Bool.or_eq_true,
      beq_iff_eq] at uses ⊢
    omega
  | _ => exact uses

theorem Move.tidy {state : State Thread Node Value} (move : Move state action after)
    (emptied : ∀ spurious, action = .move thread spurious → state.phase thread = .leaving →
      back = false) (tidy : state.Tidy back thread) :
    after.Tidy (retries thread back (state, action)) thread := by
  cases move with
  | fill | dispose | reclaim => exact tidy
  | @push caller _ resting | @trypop caller resting =>
    by_cases own : thread = caller
    · subst thread
      intro index used
      have uses := tidy index used
      rw [mayUse_resting resting] at uses
      cases uses
    · simpa [State.Tidy, retries, Ne.symm own, State.goto, update_of_ne own] using tidy
  | @read spurious caller next reads =>
    by_cases own : thread = caller
    · subst thread
      intro index used
      simpa [State.goto] using reads.mayUse index (tidy index used)
    · simpa [State.Tidy, retries, Ne.symm own, State.goto, update_of_ne own] using tidy
  | @store caller index node next spurious stores =>
    by_cases own : thread = caller
    · subst own
      have same : retries thread back (state, .move thread spurious) = back := by
        simp only [retries, if_true]
        generalize state.phase thread = before at stores
        cases stores <;> rfl
      intro other used
      rw [same]
      show (update state.phase thread next thread).mayUse _ _
      rw [update_self]
      by_cases here : other = index
      · subst other
        cases node with
        | none => simp [State.goto, State.store] at used
        | some node => exact stores.mayStore
      · refine stores.mayUse (emptied spurious rfl) here (tidy other ?_)
        simpa [State.goto, State.store, here] using used
    · have elsewhere : ∀ other, (thread, other) ≠ (caller, index) :=
        fun other same => own (congrArg Prod.fst same)
      simpa [State.Tidy, retries, Ne.symm own, State.goto, State.store, update_of_ne own,
        update_of_ne (elsewhere _)] using tidy
  | @reset caller _ _ phase | @swapTail caller _ phase | @link caller _ _ _ phase
  | @swapHead caller _ _ phase | @retire caller _ _ _ phase =>
    by_cases own : thread = caller
    · subst thread
      intro index used
      have uses := tidy index used
      rw [phase] at uses
      revert uses
      simp [Phase.mayUse]
    · simpa [State.Tidy, retries, Ne.symm own, update_of_ne own] using tidy

theorem run_tidy (run : (machine Thread Node Value).Run history state)
    (emptied : NeverEmptied history) (thread : Thread) :
    state.Tidy (retried thread history) thread := by
  induction run with
  | start initial =>
    obtain ⟨_, _, _, rfl⟩ := initial
    exact fun _ used => (used rfl).elim
  | @step history before after action run stepped ih =>
    have earlier : NeverEmptied history := fun first state thread spurious later split =>
      emptied first state thread spurious (later ++ [(before, action)]) (by simp [split])
    rw [retried, List.foldl_append]
    refine (step_moves stepped).tidy (fun spurious moves leaving => ?_) (ih earlier)
    exact emptied history before thread spurious [] (by rw [moves]) leaving

/-- As long as no call finds the queue empty after it has gone back with `head->prev`
published, every slot of a thread outside the calls is clear. -/
theorem slots_released (run : (machine Thread Node Value).Run history state)
    (emptied : NeverEmptied history) (thread : Thread)
    (resting : (state.phase thread).resting) (index : Nat) :
    state.slot (thread, index) = none := by
  by_contra used
  have uses := run_tidy run emptied thread index used
  rw [mayUse_resting resting] at uses
  cases uses

end Slots

def pushes (thread : Bool) (node : Nat) : List (Action Bool Nat Nat) :=
  .push thread node :: List.replicate 7 (.move thread false)

/-- A call has published the first node's `prev` when another pops that node. -/
def overtaken (nodes : List Nat) (rest : Nat) : List (Action Bool Nat Nat) :=
  nodes.flatMap (pushes true) ++ .trypop false :: List.replicate 5 (.move false false) ++
    .trypop true :: List.replicate 11 (.move true false) ++ List.replicate rest (.move false false)

def fresh : State Bool Nat Nat := init 0 (fun _ => none) id

theorem slots_released_second : ∃ history, ∃ state : State Bool Nat Nat,
    (machine Bool Nat Nat).Run history state ∧ retried false history ∧
      state.phase false = .returned (some 2) ∧ state.slot (false, 1) = none := by
  obtain ⟨state, run, checked⟩ := Machine.run_of_check
    (show (machine Bool Nat Nat).initial fresh from ⟨0, _, _, rfl⟩)
    (show ((machine Bool Nat Nat).exec fresh (overtaken [1, 2] 12)).any
      (fun state => decide (state.phase false = .returned (some 2))) by decide +kernel)
  have returned := of_decide_eq_true checked
  have stayed : ∀ taken ∈ (machine Bool Nat Nat).trail fresh (overtaken [1, 2] 12),
      ∀ thread, taken.1.phase thread ≠ .leaving := by decide +kernel
  refine ⟨_, state, run, by decide +kernel, returned, ?_⟩
  refine slots_released run ?_ false (by rw [returned]; rfl) 1
  intro earlier before thread spurious later split leaving
  have member : (before, .move thread spurious) ∈
      earlier ++ (before, .move thread spurious) :: later :=
    List.mem_append_right _ List.mem_cons_self
  exact (stayed _ (split ▸ member) thread leaving).elim

/-- There is no second node: it returns without a value and with the node that is the
queue's head now in its second slot. -/
theorem slots_released_emptied : ∃ history, ∃ state : State Bool Nat Nat,
    (machine Bool Nat Nat).Run history state ∧ state.phase false = .returned none ∧
      state.slot (false, 1) = some 1 ∧ state.head = 1 := by
  obtain ⟨state, run, checked⟩ := Machine.run_of_check
    (show (machine Bool Nat Nat).initial fresh from ⟨0, _, _, rfl⟩)
    (show ((machine Bool Nat Nat).exec fresh (overtaken [1] 6)).any (fun state =>
      decide (state.phase false = .returned none ∧ state.slot (false, 1) = some 1 ∧
        state.head = 1)) by decide +kernel)
  exact ⟨_, state, run, of_decide_eq_true checked⟩

end LibFiber.Mpmc
