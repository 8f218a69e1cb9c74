import LibFiber.MpmcLifo.Machine
import LibFiber.Semantics.Linearization

namespace LibFiber.MpmcLifo

open Data Semantics Function

/-! The lifo is a stack: a call takes effect at its successful `compare_and_swap2`. -/

section Stack

variable {Node : Type} [DecidableEq Node]

/-- The stack, with the responses that it can give; the top is first. -/
def Stack.step : List Node → Response Node → Option (List Node)
  | stack, .pushed node => some (node :: stack)
  | [], .popped none => some []
  | top :: rest, .popped (some node) => if top = node then some rest else none
  | _, _ => none

def Stack.machine (Node : Type) [DecidableEq Node] : Machine (List Node) (Response Node) where
  initial stack := stack = []
  step := Stack.step

theorem Stack.exec_popped (node : Node) (rest : List Node) :
    (Stack.machine Node).exec (node :: rest) [.popped (some node)] = some rest := by
  simp [Machine.exec, Stack.machine, Stack.step]

end Stack

section Invariant

variable {Thread Node : Type}

/-- What a thread has seen is right while the counter stays; the node to be pushed leads
to what it has seen in any case. -/
def Phase.Fits (data : Versioned (Option Node)) (next : Node → Option Node) : Phase Node → Prop
  | .push node (.swapping _ head) => next node = head
  | .pop (.heading counter) => data.Seen counter True
  | .pop (.following counter head) => data.Seen counter (data.head = some head)
  | .pop (.swapping counter head follower) =>
    data.Seen counter (data.head = some head ∧ next head = follower)
  | _ => True

structure Sound (state : State Thread Node) (stack : List Node) : Prop where
  chain : Chain some state.next state.data.head stack none
  distinct : stack.Nodup
  clients : ∀ node, state.free node → node ∉ stack
  held : ∀ thread node, (state.phase thread).holds = some node →
    node ∉ stack ∧ state.free node = false
  sole : ∀ thread other node, (state.phase thread).holds = some node →
    (state.phase other).holds = some node → thread = other
  fits : ∀ thread, (state.phase thread).Fits state.data state.next

variable {state : State Thread Node} {stack : List Node}

theorem initial_sound (initial : Initial state) : Sound state [] where
  chain := by
    rw [initial.1]
    exact .nil none
  distinct := List.nodup_nil
  clients := by simp
  held thread node holds := by simp [initial.2, Phase.holds] at holds
  sole thread other node holds := by simp [initial.2, Phase.holds] at holds
  fits thread := by simp [initial.2, Phase.Fits]

theorem holds_resting {phase : Phase Node} (resting : phase.resting) :
    phase.holds = none := by
  cases phase with
  | idle | returned => rfl
  | push | pop => cases resting

variable [DecidableEq Node]

theorem Sound.write (sound : Sound state stack) (outside : node ∉ stack) :
    Chain some (update state.next node pointer) state.data.head stack none ∧
      ∀ thread, (state.phase thread).holds ≠ some node →
        (state.phase thread).Fits state.data (update state.next node pointer) := by
  refine ⟨sound.chain.update_of_notMem outside, fun thread apart => ?_⟩
  have fits := sound.fits thread
  cases phase : state.phase thread with
  | idle | returned => trivial
  | push own push =>
    rw [phase] at fits apart
    cases push with
    | counting | heading | linking => trivial
    | swapping counter head =>
      have other : own ≠ node := fun same => apart (congrArg some same)
      exact (update_of_ne other _ _).trans fits
  | pop pop =>
    rw [phase] at fits
    cases pop with
    | counting | heading | following => exact fits
    | swapping counter head follower =>
      refine Versioned.Seen.weaken fits fun ⟨top, leads⟩ => ⟨top, ?_⟩
      have chain := sound.chain
      rw [top] at chain
      cases chain with
      | cons behind =>
        have other : head ≠ node := fun same => outside (same ▸ List.mem_cons_self)
        exact (update_of_ne other _ _).trans leads

theorem Reads.holds (reads : Reads state before next) :
    next.holds = before.holds := by
  cases reads <;> rfl

theorem Reads.fits (reads : Reads state before next)
    (fits : before.Fits state.data state.next) : next.Fits state.data state.next := by
  cases reads with
  | pushCount | pushHead | pushRetry | popEmpty | popRetry => trivial
  | popCount => exact ⟨Nat.le_refl _, fun _ => trivial⟩
  | popHead found => exact Versioned.Seen.weaken fits fun _ => found
  | popFollow => exact Versioned.Seen.weaken fits fun top => ⟨top, rfl⟩

theorem Sound.fill (sound : Sound state stack) (free : state.free node) :
    Sound { state with next := update state.next node pointer } stack := by
  obtain ⟨chain, fits⟩ := sound.write (sound.clients node free)
  refine { sound with chain, fits := fun thread => fits thread fun own => ?_ }
  have taken := (sound.held thread node own).2
  rw [free] at taken
  cases taken

variable [DecidableEq Thread]

section

variable (sound : Sound state stack)
include sound

omit [DecidableEq Node] in
theorem Sound.held_update (thread : Thread) (next : Phase Node)
    (holds : ∀ node, next.holds = some node → (state.phase thread).holds = some node) :
    (∀ other node, (update state.phase thread next other).holds = some node →
      node ∉ stack ∧ state.free node = false) ∧
    ∀ first second node, (update state.phase thread next first).holds = some node →
      (update state.phase thread next second).holds = some node → first = second := by
  refine ⟨(forall_update_iff state.phase (fun _ phase => ∀ node, phase.holds = some node →
      node ∉ stack ∧ state.free node = false)).mpr ⟨?_, fun other _ => sound.held other⟩,
    sole_update sound.sole ?_⟩
  · exact fun node own => sound.held thread node (holds node own)
  · exact fun node own other apart theirs =>
      apart (sound.sole other thread node theirs (holds node own))

omit [DecidableEq Node] in
theorem Sound.goto
    (holds : next.holds = (state.phase thread).holds) (fits : next.Fits state.data state.next) :
    Sound (state.goto thread next) stack := by
  obtain ⟨held, sole⟩ := sound.held_update thread next fun node own => holds ▸ own
  exact {
    chain := sound.chain
    distinct := sound.distinct
    clients := sound.clients
    held
    sole
    fits := (forall_update_iff state.phase (fun _ phase => phase.Fits state.data state.next)).mpr
      ⟨fits, fun other _ => sound.fits other⟩ }

theorem Sound.read
    (reads : Reads state (state.phase thread) next) : Sound (state.goto thread next) stack :=
  sound.goto reads.holds (reads.fits (sound.fits thread))

theorem Sound.push (free : state.free node) :
    Sound { state with
      free := update state.free node false
      phase := update state.phase thread (.push node .counting) } stack where
  chain := sound.chain
  distinct := sound.distinct
  clients other unused := by
    by_cases same : other = node
    · subst other
      simp at unused
    · exact sound.clients other (by simpa [update_of_ne same] using unused)
  held := by
    refine (forall_update_iff state.phase (fun _ phase => ∀ other, phase.holds = some other →
      other ∉ stack ∧ update state.free node false other = false)).mpr ⟨?_, ?_⟩
    · rintro _ ⟨⟩
      exact ⟨sound.clients node free, update_self _ _ _⟩
    · intro thread _ other own
      obtain ⟨outside, taken⟩ := sound.held thread other own
      refine ⟨outside, ?_⟩
      by_cases same : other = node
      · rw [same, update_self]
      · rw [update_of_ne same, taken]
  sole := by
    refine sole_update sound.sole ?_
    rintro _ ⟨⟩ other apart own
    have taken := (sound.held other node own).2
    rw [free] at taken
    cases taken
  fits := (forall_update_iff state.phase (fun _ phase => phase.Fits state.data state.next)).mpr
    ⟨trivial, fun other _ => sound.fits other⟩

theorem Sound.link (phase : state.phase thread = .push node (.linking counter head)) :
    Sound { state with
      next := update state.next node head
      phase := update state.phase thread (.push node (.swapping counter head)) } stack := by
  have own : (state.phase thread).holds = some node := by rw [phase]; rfl
  obtain ⟨chain, fits⟩ := sound.write (sound.held thread node own).1
  obtain ⟨held, sole⟩ := sound.held_update thread (.push node (.swapping counter head))
    fun found same => own.trans same
  exact {
    chain
    distinct := sound.distinct
    clients := sound.clients
    held
    sole
    fits := by
      refine (forall_update_iff state.phase (fun _ phase => phase.Fits state.data
        (update state.next node head))).mpr ⟨update_self _ _ _, fun other apart => ?_⟩
      exact fits other fun theirs => apart (sound.sole other thread node theirs own) }

omit [DecidableEq Node] in
theorem Sound.fits_swap (advanced : state.data.counter < data.counter)
    (fits : next.Fits data state.next) (other : Thread) :
    (update state.phase thread next other).Fits data state.next := by
  refine (forall_update_iff state.phase (fun _ phase => phase.Fits data state.next)).mpr
    ⟨fits, fun other _ => ?_⟩ other
  have theirs := sound.fits other
  cases phase : state.phase other with
  | idle | returned => trivial
  | push own push =>
    rw [phase] at theirs
    cases push <;> exact theirs
  | pop pop =>
    rw [phase] at theirs
    cases pop with
    | counting => trivial
    | heading | following | swapping => exact Versioned.Seen.stale theirs advanced

theorem Sound.pushed (phase : state.phase thread = .push node (.swapping counter head))
    (swapped : state.data.swap counter head (some node) = some data) :
    Sound { state with data, phase := update state.phase thread (.returned (.pushed node)) }
      (node :: stack) := by
  obtain ⟨_, rfl, rfl⟩ := Versioned.swap_eq_some swapped
  have own : (state.phase thread).holds = some node := by rw [phase]; rfl
  have leads := sound.fits thread
  rw [phase] at leads
  obtain ⟨outside, taken⟩ := sound.held thread node own
  obtain ⟨held, sole⟩ := sound.held_update thread (.returned (.pushed node)) nofun
  exact {
    chain := .cons (by rw [leads]; exact sound.chain)
    distinct := List.nodup_cons.mpr ⟨outside, sound.distinct⟩
    clients := by
      intro other free member
      rcases List.mem_cons.mp member with rfl | earlier
      · rw [taken] at free
        cases free
      · exact sound.clients other free earlier
    held := by
      intro other found theirs
      obtain ⟨absent, kept⟩ := held other found theirs
      refine ⟨fun member => ?_, kept⟩
      rcases List.mem_cons.mp member with rfl | earlier
      · by_cases same : other = thread
        · subst other
          simp [Phase.holds] at theirs
        · have theirs : (state.phase other).holds = some found := by
            simpa only [update_of_ne same] using theirs
          exact same (sound.sole other thread found theirs own)
      · exact absent earlier
    sole
    fits := sound.fits_swap (Nat.lt_succ_self _) trivial }

theorem Sound.popped {next : Option Node}
    (phase : state.phase thread = .pop (.swapping counter node next))
    (swapped : state.data.swap counter (some node) next = some data) :
    ∃ rest, stack = node :: rest ∧ Sound { state with
      data
      free := update state.free node true
      phase := update state.phase thread (.returned (.popped (some node))) } rest := by
  obtain ⟨current, _, rfl⟩ := Versioned.swap_eq_some swapped
  have seen := sound.fits thread
  rw [phase] at seen
  obtain ⟨top, leads⟩ := seen.2 current
  have chain := sound.chain
  rw [top] at chain
  cases chain with
  | @cons _ rest _ behind =>
    obtain ⟨absent, distinct⟩ := List.nodup_cons.mp sound.distinct
    obtain ⟨held, sole⟩ := sound.held_update thread (.returned (.popped (some node))) nofun
    refine ⟨rest, rfl, ?_⟩
    exact {
      chain := leads ▸ behind
      distinct
      clients := by
        intro other free
        by_cases same : other = node
        · exact same ▸ absent
        · have unused : state.free other := by simpa [update_of_ne same] using free
          exact fun member => sound.clients other unused (List.mem_cons_of_mem _ member)
      held := by
        intro other found theirs
        obtain ⟨outside, taken⟩ := held other found theirs
        refine ⟨fun member => outside (List.mem_cons_of_mem _ member), ?_⟩
        have apart : found ≠ node := fun same => outside (same ▸ List.mem_cons_self)
        exact (update_of_ne apart _ _).trans taken
      sole
      fits := sound.fits_swap (Nat.lt_succ_self _) trivial }

end

end Invariant

section Refinement

variable {Thread Node : Type} [DecidableEq Thread] [DecidableEq Node]
variable {after : State Thread Node}

def answers : State Thread Node × Action Thread Node → Option (Response Node)
  | (state, .move thread) => (move state thread).bind fun after => (after.phase thread).response
  | _ => none

theorem answers_move (stepped : step state (.move thread) = some after)
    (phase : after.phase thread = next) : answers (state, .move thread) = next.response := by
  have moved : move state thread = some after := stepped
  simp [answers, moved, phase]

theorem Sound.step (sound : Sound state stack) (stepped : step state action = some after) :
    ∃ stack', (Stack.machine Node).exec stack (answers (state, action)).toList = some stack' ∧
      Sound after stack' := by
  cases step_moves stepped with
  | fill free => exact ⟨stack, rfl, sound.fill free⟩
  | push resting free => exact ⟨stack, rfl, sound.push free⟩
  | pop resting => exact ⟨stack, rfl, sound.goto (holds_resting resting).symm trivial⟩
  | @read thread next reads =>
    refine ⟨stack, ?_, sound.read reads⟩
    rw [answers_move stepped (update_self _ _ _)]
    generalize state.phase thread = before at reads
    cases reads with
    | pushCount | pushHead | pushRetry | popCount | popHead | popFollow | popRetry => rfl
    | popEmpty empty =>
      have chain := sound.chain
      rw [empty] at chain
      cases chain
      rfl
  | link phase =>
    refine ⟨stack, ?_, sound.link phase⟩
    rw [answers_move stepped (update_self _ _ _)]
    rfl
  | @pushed thread node counter head data phase swapped =>
    refine ⟨node :: stack, ?_, sound.pushed phase swapped⟩
    rw [answers_move stepped (update_self _ _ _)]
    rfl
  | @popped thread counter head next data phase swapped =>
    obtain ⟨rest, rfl, shorter⟩ := sound.popped phase swapped
    refine ⟨rest, ?_, shorter⟩
    rw [answers_move stepped (update_self _ _ _)]
    exact Stack.exec_popped head rest

theorem step_swaps (stepped : step state (.move thread) = some after) :
    after.data ≠ state.data ↔
      ∃ response, answers (state, .move thread) = some response ∧ response ≠ .popped none := by
  cases step_moves stepped with
  | @read _ next reads =>
    rw [answers_move stepped (update_self _ _ _)]
    generalize state.phase thread = before at reads
    cases reads <;> simp [State.goto, Phase.response]
  | link phase =>
    rw [answers_move stepped (update_self _ _ _)]
    simp [Phase.response]
  | pushed phase swapped | popped phase swapped =>
    obtain ⟨_, _, rfl⟩ := Versioned.swap_eq_some swapped
    rw [answers_move stepped (update_self _ _ _)]
    have advanced : state.data.counter + 1 ≠ state.data.counter := Nat.succ_ne_self _
    have changed : ∀ head, (⟨state.data.counter + 1, head⟩ : Versioned _) ≠ state.data :=
      fun head same => advanced (congrArg Versioned.counter same)
    simp [Phase.response, changed]

/-- The answers that the calls give are, in the order in which they give them, those of
a stack, that the nodes from the head on make up: so a pop returns the node pushed last
of those not popped yet, and none only when there is none.  The lifo is swapped at the
steps that give an answer, other than that of an empty pop, and at no others.  The nodes
in the hands of the clients are not in the stack. -/
theorem mpmc_lifo_refines_stack {history : History Thread Node} {state : State Thread Node}
    (run : (machine Thread Node).Run history state) :
    ∃ stack, (Stack.machine Node).exec [] (history.filterMap answers) = some stack ∧
      Chain some state.next state.data.head stack none ∧ stack.Nodup ∧
      (∀ node, state.free node → node ∉ stack) ∧
      ∀ thread after, step state (.move thread) = some after →
        (after.data ≠ state.data ↔ ∃ response,
          answers (state, .move thread) = some response ∧ response ≠ .popped none) := by
  obtain ⟨_, stack, rfl, executed, sound⟩ := Machine.Run.linearizes (Stack.machine Node) answers
    Sound (fun state initial => ⟨[], rfl, initial_sound initial⟩)
    (fun before action after stack sound stepped => sound.step stepped) run
  exact ⟨stack, executed, sound.chain, sound.distinct, sound.clients,
    fun thread after stepped => step_swaps stepped⟩

end Refinement

/-- A pop has read the node `1` and its successor when that node is popped, and its
successor too, and it is pushed again: the head is the same and the swap fails. -/
def recycled : List (Action Bool Nat) :=
  List.flatten [.push false 0 :: List.replicate 4 (.move false),
    .push false 1 :: List.replicate 4 (.move false), .pop true :: List.replicate 3 (.move true),
    .pop false :: List.replicate 4 (.move false), .pop false :: List.replicate 4 (.move false),
    .push false 1 :: List.replicate 4 (.move false), List.replicate 5 (.move true),
    .pop false :: List.replicate 2 (.move false)]

def blank : State Bool Nat where
  data := ⟨0, none⟩
  next _ := none
  free _ := true
  phase _ := .idle

theorem mpmc_lifo_refines_stack_recycled : ∃ history state,
    (machine Bool Nat).Run history state ∧
      history.filterMap answers = [.pushed 0, .pushed 1, .popped (some 1), .popped (some 0),
        .pushed 1, .popped (some 1), .popped none] ∧
      ∃ stack, (Stack.machine Nat).exec [] (history.filterMap answers) = some stack ∧
        Chain some state.next state.data.head stack none := by
  have run := Machine.run_of_isSome
    (show (machine Bool Nat).initial blank from ⟨rfl, rfl⟩)
    (show ((machine Bool Nat).exec blank recycled).isSome by decide +kernel)
  obtain ⟨stack, executed, chain, _⟩ := mpmc_lifo_refines_stack run
  exact ⟨_, _, run, by decide +kernel, stack, executed, chain⟩

end LibFiber.MpmcLifo
