import LibFiber.DistFifo.Order

namespace LibFiber.DistFifo

open Data Data.LinkedFifo Semantics Function

/-! When `dist_fifo_trypop` returns `DIST_FIFO_EMPTY`. -/

section Runs

variable {Thread Fifo Node Value : Type} [DecidableEq Thread] [DecidableEq Fifo]
variable [DecidableEq Node] {history : History Thread Fifo Node Value}

/-- The fifo has held no value at some time since the last call of the thread began. -/
def WasEmpty (thread : Thread) (fifo : Fifo) (history : History Thread Fifo Node Value) : Prop :=
  ∃ time ≤ history.length,
    (∀ taken ∈ history.drop time, ∀ called, taken.2 ≠ .trypop thread called) ∧
      pushed fifo (history.take time) = popped fifo (history.take time)

/-- No link of a node is cleared between the two steps in which some call reads the node in
`head` and follows the link. -/
def Spares (taken : State Thread Fifo Node Value × Action Thread Fifo Node Value) : Prop :=
  ∀ thread fifo counter node, taken.1.phase thread = .popping fifo (.headed counter node) →
    match taken.2 with
    | .fill filled _ next => filled = node → next ≠ none
    | .move pusher => ∀ own, taken.1.phase pusher ≠ .terminating own node
    | _ => True

omit [DecidableEq Thread] in
theorem WasEmpty.snoc (wasEmpty : WasEmpty thread fifo history)
    (goes : ∀ called, taken.2 ≠ .trypop thread called) :
    WasEmpty thread fifo (history ++ [taken]) := by
  obtain ⟨time, bound, since, empty⟩ := wasEmpty
  refine ⟨time, Nat.le_trans bound (by simp), ?_, ?_⟩
  · rw [List.drop_append_of_le_length bound, List.forall_mem_append]
    exact ⟨since, by simpa using goes⟩
  · rwa [List.take_append_of_le_length bound]

theorem wasEmpty_of_next (run : (machine Node Value owner).Run history state)
    (ends : state.next (state.head fifo).head = none) (thread : Thread) :
    WasEmpty thread fifo history := by
  obtain ⟨nodes, last, place, sound, balance⟩ := run_sound run
  refine ⟨history.length, Nat.le_refl _, by simp, ?_⟩
  obtain ⟨path, _⟩ := (sound.represents fifo).path
  rw [List.take_length, balance fifo]
  cases shape : nodes fifo with
  | nil => simp
  | cons node rest =>
    rw [shape] at path
    rw [path.1] at ends
    cases ends

/-- A thread that is about to follow the link of a node has just read the head, or was about to
before, and then the link is still there if it was. -/
theorem Move.headed {state after : State Thread Fifo Node Value}
    (move : Move owner state action after) (spares : Spares (state, action))
    (reading : after.phase thread = .popping fifo (.headed counter node)) :
    (∀ called, action ≠ .trypop thread called) ∧
      (state.phase thread = .popping fifo (.headed counter node) ∧
          (state.next node ≠ none → after.next node ≠ none) ∨
        node = (state.head fifo).head ∧ after.next = state.next) := by
  have spares := spares thread fifo counter node
  cases move with
  | @read mover next reads =>
    generalize phase : state.phase mover = before at reads
    simp only [State.goto] at reading ⊢
    cases reads <;> grind [= update_apply]
  | trypop =>
    simp only [State.goto] at reading ⊢
    grind [= update_apply]
  | _ => grind [= update_apply]

theorem run_headed (run : (machine Node Value owner).Run history state)
    (spares : ∀ taken ∈ history, Spares taken)
    (reading : state.phase thread = .popping fifo (.headed counter node)) :
    state.next node ≠ none ∨ WasEmpty thread fifo history := by
  induction run generalizing fifo counter node with
  | start initial =>
    obtain ⟨_, _, _, _, _, _, idle⟩ := initial
    simp [idle] at reading
  | step run stepped earlier =>
    rw [List.forall_mem_append] at spares
    obtain ⟨goes, ⟨was, kept⟩ | ⟨rfl, same⟩⟩ := (step_moves stepped).headed
      (spares.2 _ (by simp)) reading
    · exact (earlier spares.1 was).imp kept fun empty => empty.snoc goes
    · rw [same, or_iff_not_imp_left, not_not]
      exact fun ends => (wasEmpty_of_next run ends thread).snoc goes

/-- A call that returns `DIST_FIFO_EMPTY` has met the fifo empty, as long as no node is
terminated again while a call is about to follow its link. -/
theorem empty_honest (run : (machine Node Value owner).Run history state)
    (spares : ∀ taken ∈ history, Spares taken)
    (calls : state.phase thread = .popping fifo oldHead)
    (last : step owner state (.move thread) = some after)
    (returned : after.phase thread = .popped .empty) : WasEmpty thread fifo history := by
  cases step_moves last with
  | terminate phase | link phase | move phase | store phase =>
    rw [calls] at phase
    cases phase
  | swap => simp at returned
  | @read _ next reads =>
    obtain rfl : next = .popped .empty := by simpa [State.goto] using returned
    rw [calls] at reads
    cases reads with
    | empty ends => exact (run_headed run spares calls).resolve_left fun leads => leads ends

end Runs

/-- Thread `true` reads the first node in the head of thread `false`'s fifo. -/
def early : List (Action Bool Bool Nat Nat) := [.trypop true false, .move true, .move true]

/-- The fifo holds the values of nodes 2 and 3 when the thread reads node 0 in its head; then
the owner takes node 0 out and pushes it again. -/
def recycled : List (Action Bool Bool Nat Nat) :=
  List.flatten [[.fill 2 11 none, .push false false 2], List.replicate 3 (.move false),
    [.fill 3 22 none, .push false false 3], List.replicate 3 (.move false),
    early, .trypop false false :: List.replicate 6 (.move false),
    .push false false 0 :: List.replicate 3 (.move false)]

theorem empty_of_exec (actions : List (Action Bool Bool Nat Nat))
    (ends : ((machine Nat Nat id).exec blank actions).any (fun state =>
      decide (state.phase true = .popping false (.headed 0 0) ∧ state.next 0 = none))) :
    ∃ state, (machine Nat Nat id).Run ((machine Nat Nat id).trail blank actions) state ∧
      state.phase true = .popping false (.headed 0 0) ∧
      step id state (.move true) = some (state.goto true (.popped .empty)) := by
  obtain ⟨state, run, checked⟩ := Machine.run_of_check blank_initial ends
  obtain ⟨calls, ends⟩ := of_decide_eq_true checked
  exact ⟨state, run, calls, by simp [step, move, calls, ends]⟩

theorem empty_honest_early : WasEmpty true false ((machine Nat Nat id).trail blank early) := by
  obtain ⟨state, run, calls, last⟩ := empty_of_exec early (by decide +kernel)
  refine empty_honest run ?_ calls last (by simp [State.goto])
  have before : ∀ taken ∈ (machine Nat Nat id).trail blank early, taken.1.phase false = .idle ∧
      taken.1.phase true ∈ [.idle, .counting false, .popping false (.counted 0)] := by
    decide +kernel
  intro taken member thread fifo counter node reading
  have phases := before taken member
  cases thread <;> simp [reading] at phases

theorem empty_honest_recycled : ∃ history state after,
    (machine Nat Nat (id : Bool → Bool)).Run history state ∧
      state.phase true = .popping false (.headed 0 0) ∧ step id state (.move true) = some after ∧
      after.phase true = .popped .empty ∧ ¬ WasEmpty true false history := by
  obtain ⟨state, run, calls, last⟩ := empty_of_exec recycled (by decide +kernel)
  refine ⟨_, state, _, run, calls, last, by simp [State.goto], ?_⟩
  unfold WasEmpty
  decide +kernel

end LibFiber.DistFifo
