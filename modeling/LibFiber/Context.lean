import LibFiber.Semantics.Machine

namespace LibFiber.Context

open Semantics Function

/-! `fiber_context_init` and `fiber_context_swap`, for x86-64 with fast switching.

Memory is a function of the addresses of its aligned words.  A running context has the
registers of the thread that it is on; between two calls it does as it likes with them,
and with memory.
-/

/-- `rip` and `rdi`, and the registers that a call keeps. -/
structure Registers where
  rip : Nat
  rdi : Nat
  rsp : Nat
  rbp : Nat
  rbx : Nat
  r12 : Nat
  r13 : Nat
  r14 : Nat
  r15 : Nat
deriving DecidableEq, Repr

/-- `ctx_stack` and `ctx_stack_size`, or the stack of the thread. -/
structure Stack where
  base : Nat
  size : Nat
deriving DecidableEq, Repr

inductive Status where
  | absent
  /-- Behind `fiber_context_init`. -/
  | fresh
  | running
  | suspended
deriving DecidableEq, Repr

structure State (Context : Type) where
  memory : Nat → Nat
  /-- `ctx_stack_pointer` -/
  stackPointer : Context → Nat
  status : Context → Status
  registers : Context → Registers

inductive Action (Context : Type) where
  | init (context : Context) (runFunction param : Nat)
  | swap (fromContext toContext : Context)
  | compute (context : Context) (registers : Registers)
  | write (address value : Nat)
deriving DecidableEq, Repr

/-- `pushq` or `*--ctx_stack_pointer = value`, one value after the other. -/
def pushAll (memory : Nat → Nat) (pointer : Nat) : List Nat → (Nat → Nat) × Nat
  | [] => (memory, pointer)
  | value :: rest => pushAll (update memory (pointer - 8) value) (pointer - 8) rest

/-- The last word of the stack, rounded down to 16 bytes. -/
def Stack.aligned (stack : Stack) : Nat := (stack.base + stack.size - 8) / 16 * 16

/-- What `fiber_context_init` writes, behind its filler decrement. -/
def initialFrame (runFunction param : Nat) : List Nat :=
  [param, 0, runFunction, 0, 0, 0, 0, 0, 0]

/-- What `fiber_context_swap` pushes; `label` is the address of its local label. -/
def savedFrame (label : Nat) (registers : Registers) : List Nat :=
  [label, registers.rbp, registers.rbx, registers.r12, registers.r13, registers.r14, registers.r15]

/-- The second half of `fiber_context_swap`; `rcx` is read before the first half. -/
def restore (memory : Nat → Nat) (rcx toSp : Nat) : Registers where
  rip := rcx
  rdi := memory (toSp + 64)
  rsp := toSp + 48 + 8
  rbp := memory (toSp + 40)
  rbx := memory (toSp + 32)
  r12 := memory (toSp + 24)
  r13 := memory (toSp + 16)
  r14 := memory (toSp + 8)
  r15 := memory toSp

section Steps

variable {Context : Type} [DecidableEq Context]

def swap (label : Nat) (state : State Context) (fromContext toContext : Context) :
    State Context :=
  let toSp := state.stackPointer toContext
  let registers := state.registers fromContext
  let pushed := pushAll state.memory registers.rsp (savedFrame label registers)
  { memory := pushed.1
    stackPointer := update state.stackPointer fromContext pushed.2
    status := update (update state.status fromContext .suspended) toContext .running
    registers := update state.registers toContext
      (restore pushed.1 (state.memory (toSp + 48)) toSp) }

/-- The stack is large enough for the initial frame, and a swap is to a context that
does not run. -/
def step (stack : Context → Stack) (label : Nat) (state : State Context) :
    Action Context → Option (State Context)
  | .init context runFunction param =>
    if state.status context = .absent ∧ (stack context).base + 80 ≤ (stack context).aligned then
      let pushed := pushAll state.memory ((stack context).aligned - 8)
        (initialFrame runFunction param)
      some { state with
        memory := pushed.1
        stackPointer := update state.stackPointer context pushed.2
        status := update state.status context .fresh }
    else none
  | .swap fromContext toContext =>
    if state.status fromContext = .running ∧ (state.registers fromContext).rsp % 8 = 0 ∧
        (state.status toContext = .fresh ∨ state.status toContext = .suspended) then
      some (swap label state fromContext toContext)
    else none
  | .compute context registers =>
    if state.status context = .running then
      some { state with registers := update state.registers context registers }
    else none
  | .write address value =>
    if address % 8 = 0 then some { state with memory := update state.memory address value }
    else none

/-- Behind `fiber_context_init_from_thread`, every thread runs its own context. -/
def machine (stack : Context → Stack) (label : Nat) :
    Machine (State Context) (Action Context) where
  initial state := ∀ context, state.status context = .absent ∨ state.status context = .running
  step := step stack label

/-- How a context came to be suspended. -/
inductive Saved where
  | fresh (runFunction param : Nat)
  | swapped (registers : Registers)

def record (saved : Context → Option Saved) (taken : State Context × Action Context) :
    Context → Option Saved :=
  match taken.2 with
  | .init context runFunction param => update saved context (some (.fresh runFunction param))
  | .swap fromContext _ =>
    update saved fromContext (some (.swapped (taken.1.registers fromContext)))
  | _ => saved

def lastSaved (history : List (State Context × Action Context)) : Context → Option Saved :=
  history.foldl record fun _ => none

def Disjoint (stack : Context → Stack) : Prop :=
  ∀ one other, one ≠ other → (stack one).base + (stack one).size ≤ (stack other).base ∨
    (stack other).base + (stack other).size ≤ (stack one).base

def Status.frameSize : Status → Nat
  | .absent | .running => 0
  | .fresh => 72
  | .suspended => 56

/-- Nobody writes to a saved frame, and a context has its stack pointer, with room for
the frame, in its own stack when it is switched away from. -/
def Respects (stack : Context → Stack) (state : State Context) : Action Context → Prop
  | .write address _ => ∀ context, ¬ (state.stackPointer context ≤ address ∧
      address < state.stackPointer context + (state.status context).frameSize)
  | .swap context _ => (stack context).base + 56 ≤ (state.registers context).rsp ∧
      (state.registers context).rsp ≤ (stack context).base + (stack context).size
  | _ => True

def Saved.status : Saved → Status
  | .fresh _ _ => .fresh
  | .swapped _ => .suspended

def Saved.frame (label : Nat) : Saved → List Nat
  | .fresh runFunction param => initialFrame runFunction param
  | .swapped registers => savedFrame label registers

/-- Where the frame ends. -/
def Saved.start (stack : Stack) : Saved → Nat
  | .fresh _ _ => stack.aligned - 8
  | .swapped registers => registers.rsp

/-- The frame is in the context's stack, below the stack pointer of its suspension. -/
structure Framed (stack : Stack) (label : Nat) (memory : Nat → Nat) (pointer : Nat)
    (saved : Saved) : Prop where
  start : saved.start stack = pointer + 8 * (saved.frame label).length
  lower : stack.base ≤ pointer
  upper : saved.start stack ≤ stack.base + stack.size
  words : ∀ index value, (saved.frame label)[index]? = some value →
    memory (saved.start stack - 8 * (index + 1)) = value

def Sound (stack : Context → Stack) (label : Nat) (saved : Context → Option Saved)
    (state : State Context) : Prop :=
  ∀ context, state.status context = .fresh ∨ state.status context = .suspended →
    ∃ kept, saved context = some kept ∧ kept.status = state.status context ∧
      Framed (stack context) label state.memory (state.stackPointer context) kept

theorem pushAll_snd (values : List Nat) : (pushAll memory pointer values).2 =
    pointer - 8 * values.length := by
  induction values generalizing memory pointer with
  | nil => rfl
  | cons value rest ih =>
    rw [pushAll, ih, List.length_cons]
    omega

theorem pushAll_outside {values : List Nat}
    (outside : pointer ≤ address ∨ address < pointer - 8 * values.length)
    (room : 8 * values.length ≤ pointer) : (pushAll memory pointer values).1 address =
      memory address := by
  induction values generalizing memory pointer with
  | nil => rfl
  | cons value rest ih =>
    rw [List.length_cons] at outside room
    rw [pushAll, ih (by omega) (by omega)]
    exact update_of_ne (by omega) _ _

theorem pushAll_word {values : List Nat} (found : values[index]? = some value)
    (room : 8 * values.length ≤ pointer) :
    (pushAll memory pointer values).1 (pointer - 8 * (index + 1)) = value := by
  induction values generalizing memory pointer index with
  | nil => cases found
  | cons first rest ih =>
    rw [List.length_cons] at room
    cases index with
    | zero =>
      cases found
      rw [pushAll, pushAll_outside (by omega) (by omega)]
      exact update_self _ _ _
    | succ index =>
      rw [pushAll, show pointer - 8 * (index + 1 + 1) = pointer - 8 - 8 * (index + 1) by omega]
      exact ih found (by omega)

theorem Saved.length_frame (saved : Saved) :
    8 * (saved.frame label).length = saved.status.frameSize := by
  cases saved <;> rfl

theorem Framed.pushed (kept : Saved) (upper : kept.start stack ≤ stack.base + stack.size)
    (room : stack.base + 8 * (kept.frame label).length ≤ kept.start stack) :
    Framed stack label (pushAll memory (kept.start stack) (kept.frame label)).1
      (pushAll memory (kept.start stack) (kept.frame label)).2 kept where
  start := by
    rw [pushAll_snd]
    omega
  lower := by
    rw [pushAll_snd]
    omega
  upper := upper
  words index value found := pushAll_word found (by omega)

theorem Framed.keep (framed : Framed stack label memory pointer kept)
    (same : ∀ address, pointer ≤ address → address < kept.start stack →
      after address = memory address) : Framed stack label after pointer kept := by
  refine ⟨framed.start, framed.lower, framed.upper, fun index value found => ?_⟩
  have bound := (List.getElem?_eq_some_iff.mp found).1
  have start := framed.start
  rw [same _ (by omega) (by omega)]
  exact framed.words index value found

omit [DecidableEq Context] in
theorem Framed.keep_pushAll {stack : Context → Stack} (disjoint : Disjoint stack)
    (framed : Framed (stack context) label memory pointer kept) (other : context ≠ pusher)
    {values : List Nat} (upper : top ≤ (stack pusher).base + (stack pusher).size)
    (room : (stack pusher).base + 8 * values.length ≤ top) :
    Framed (stack context) label (pushAll memory top values).1 pointer kept := by
  refine framed.keep fun address low high => pushAll_outside ?_ (by omega)
  have lower := framed.lower
  have inside := framed.upper
  rcases disjoint context pusher other with apart | apart
  · exact .inr (by omega)
  · exact .inl (by omega)

theorem Framed.word (framed : Framed stack label memory pointer kept)
    (index : Nat) (found : (kept.frame label)[index]? = some value)
    (place : offset + 8 * (index + 1) = 8 * (kept.frame label).length) :
    memory (pointer + offset) = value := by
  rw [← framed.words index value found, framed.start]
  congr 1
  omega

theorem step_sound {stack : Context → Stack} {state : State Context} (disjoint : Disjoint stack)
    (sound : Sound stack label saved state) (respects : Respects stack state action)
    (stepped : step stack label state action = some after) :
    Sound stack label (record saved (state, action)) after := by
  intro context held
  cases action with
  | init created runFunction param =>
    obtain ⟨⟨absent, room⟩, ⟨⟩⟩ := Option.ite_none_right_eq_some.mp stepped
    have bound : (stack created).aligned ≤ (stack created).base + (stack created).size := by
      unfold Stack.aligned
      omega
    by_cases same : context = created
    · subst same
      refine ⟨.fresh runFunction param, update_self _ _ _, ?_⟩
      simp only [update_self]
      refine ⟨rfl, ?_⟩
      exact Framed.pushed (.fresh runFunction param)
        (show (stack context).aligned - 8 ≤ _ by omega)
        (show (stack context).base + 72 ≤ (stack context).aligned - 8 by omega)
    · simp only [update_of_ne same] at held ⊢
      obtain ⟨kept, found, status, framed⟩ := sound context held
      refine ⟨kept, (update_of_ne same _ _).trans found, status, ?_⟩
      exact framed.keep_pushAll disjoint same (by omega)
        (show (stack created).base + 72 ≤ (stack created).aligned - 8 by omega)
  | swap fromContext toContext =>
    obtain ⟨-, ⟨⟩⟩ := Option.ite_none_right_eq_some.mp stepped
    obtain ⟨room, upper⟩ := respects
    have apart : context ≠ toContext := fun same => by
      simp [swap, same] at held
    by_cases same : context = fromContext
    · subst same
      simp only [swap, update_of_ne apart, update_self]
      exact ⟨.swapped (state.registers context), update_self _ _ _, rfl,
        Framed.pushed (.swapped (state.registers context)) upper room⟩
    · simp only [swap, update_of_ne apart, update_of_ne same] at held ⊢
      obtain ⟨kept, found, status, framed⟩ := sound context held
      exact ⟨kept, (update_of_ne same _ _).trans found, status,
        framed.keep_pushAll disjoint same upper room⟩
  | compute running registers =>
    obtain ⟨-, ⟨⟩⟩ := Option.ite_none_right_eq_some.mp stepped
    exact sound context held
  | write address value =>
    obtain ⟨-, ⟨⟩⟩ := Option.ite_none_right_eq_some.mp stepped
    obtain ⟨kept, found, status, framed⟩ := sound context held
    refine ⟨kept, found, status, framed.keep fun other low high => update_of_ne ?_ _ _⟩
    intro same
    subst same
    rw [framed.start, kept.length_frame, status] at high
    exact respects context ⟨low, high⟩

theorem run_sound {stack : Context → Stack} {state : State Context} (disjoint : Disjoint stack)
    (run : (machine stack label).Run history state)
    (respects : ∀ taken ∈ history, Respects stack taken.1 taken.2) :
    Sound stack label (lastSaved history) state := by
  induction run with
  | start initial =>
    intro context held
    rcases initial context with status | status <;> simp [status] at held
  | @step history before after action earlier stepped ih =>
    rw [lastSaved, List.foldl_append]
    exact step_sound disjoint (ih fun taken inside => respects taken (by simp [inside]))
      (respects (before, action) (by simp)) stepped

/-- What a switch to the context finds in the registers. -/
def Saved.Resumes (stack : Stack) (label : Nat) (registers : Registers) : Saved → Prop
  | .fresh runFunction param => registers.rip = runFunction ∧ registers.rdi = param ∧
      registers.rsp % 16 = 8 ∧ stack.base ≤ registers.rsp ∧
      registers.rsp < stack.base + stack.size
  | .swapped suspended => registers.rip = label ∧ registers.rsp = suspended.rsp ∧
      registers.rbp = suspended.rbp ∧ registers.rbx = suspended.rbx ∧
      registers.r12 = suspended.r12 ∧ registers.r13 = suspended.r13 ∧
      registers.r14 = suspended.r14 ∧ registers.r15 = suspended.r15

theorem Framed.resumes (framed : Framed stack label memory pointer kept)
    (later : Framed stack label after pointer kept) :
    kept.Resumes stack label (restore after (memory (pointer + 48)) pointer) := by
  have start := framed.start
  have lower := framed.lower
  have upper := framed.upper
  cases kept with
  | fresh runFunction param =>
    have start : stack.aligned - 8 = pointer + 72 := start
    have upper : stack.aligned - 8 ≤ stack.base + stack.size := upper
    have aligned : stack.aligned % 16 = 0 := Nat.mul_mod_left _ _
    exact ⟨framed.word 2 rfl rfl, later.word 0 rfl rfl,
      show (pointer + 48 + 8) % 16 = 8 by omega, show stack.base ≤ pointer + 48 + 8 by omega,
      show pointer + 48 + 8 < stack.base + stack.size by omega⟩
  | swapped suspended =>
    exact ⟨framed.word 0 rfl rfl, start.symm, later.word 1 rfl rfl,
      later.word 2 rfl rfl, later.word 3 rfl rfl,
      later.word 4 rfl rfl, later.word 5 rfl rfl,
      later.word 6 rfl rfl⟩

theorem swap_resumes (stack : Context → Stack) (label : Nat) (disjoint : Disjoint stack)
    (history : List (State Context × Action Context)) (state after : State Context)
    (run : (machine stack label).Run history state)
    (respects : ∀ taken ∈ history, Respects stack taken.1 taken.2)
    (fromContext toContext : Context) (switch : Respects stack state (.swap fromContext toContext))
    (swapped : (machine stack label).step state (.swap fromContext toContext) = some after) :
    ∃ kept, lastSaved history toContext = some kept ∧
      kept.Resumes (stack toContext) label (after.registers toContext) := by
  obtain ⟨⟨running, -, ready⟩, ⟨⟩⟩ := Option.ite_none_right_eq_some.mp swapped
  obtain ⟨kept, found, status, framed⟩ := run_sound disjoint run respects toContext ready
  have apart : toContext ≠ fromContext := fun same => by
    simp [same, running] at ready
  refine ⟨kept, found, ?_⟩
  simp only [swap, update_self]
  exact framed.resumes (framed.keep_pushAll disjoint apart switch.2 switch.1)

end Steps

theorem swap_resumes_thread :
    let stack : Bool → Stack := fun context => if context then ⟨1004, 200⟩ else ⟨4096, 4096⟩
    let thread : Registers := ⟨1, 2, 8000, 3, 4, 5, 6, 7, 8⟩
    ∃ history state after, (machine stack 99).Run history state ∧
      (machine stack 99).step state (.swap true false) = some after ∧
      (after.registers false).rip = 99 ∧ (after.registers false).rsp = thread.rsp ∧
      (after.registers false).r15 = thread.r15 := by
  intro stack thread
  let started : State Bool := ⟨fun _ => 0, fun _ => 0, fun context =>
    if context then .absent else .running, fun _ => thread⟩
  have disjoint : Disjoint stack := by
    unfold Disjoint
    decide
  have initial : (machine stack 99).initial started := by
    show ∀ context, _ ∨ _
    decide
  have created : (machine stack 99).Run ([] ++ [(started, .init true 500 7)]) _ :=
    .step (.start initial) (Option.some_get (by decide)).symm
  have run : (machine stack 99).Run (_ ++ [(_, .swap false true)]) _ :=
    .step created (Option.some_get (by decide)).symm
  obtain ⟨kept, found, resumes⟩ := swap_resumes stack 99 disjoint _ _ _ run (by
    simp [Respects]
    decide) true false ⟨by decide, by decide⟩ (Option.some_get (by decide)).symm
  cases found
  exact ⟨_, _, _, run, (Option.some_get _).symm, resumes.1, resumes.2.1.trans (by decide),
    resumes.2.2.2.2.2.2.2.trans (by decide)⟩

end LibFiber.Context
