import LibFiber.Hazard.Reclamation
import Mathlib.Logic.Relation

namespace LibFiber.Hazard

open Semantics Data Function

/-! No `gc_function` gets a node that is in use, and none gets a node twice.

The queue takes no notice of records and scans: what it does is a run of its own,
in which a node is used again only when nobody has it validated.
-/

section Steps

variable {Thread Node Value : Type} {pointersPerThread : Nat}
variable {state : State Thread Node Value}
variable {queue : Mpmc.State Thread Node Value}
variable {node : Node}
variable {thread : Thread}

theorem Serves.unclaimed (serves : Serves state action act) : act ≠ .reclaim node := by
  cases serves <;> nofun

theorem Serves.mover (serves : Serves state action act)
    (absent : thread ∉ state.records) : act.mover ≠ some thread := by
  intro moves
  cases serves with
  | fill => cases moves
  | push listed | trypop listed | move listed =>
    cases moves
    exact absent listed

theorem Serves.mute (serves : Serves state action act) : retires (state, action) = none := by
  cases serves with
  | fill | push | trypop => rfl
  | @move thread spurious _ outside others =>
    cases phase : state.queue.phase thread with
    | retiring head value => exact (others head value phase).elim
    | _ => simp [retires, outside, phase]

theorem busy_of_retiring (holds : Mpmc.Sound state.queue members owner)
    (phase : state.queue.phase thread = .retiring head value) :
    state.queue.status head = .busy := by
  have owned := (holds.threads thread).holds head (by rw [phase]; rfl)
  rw [holds.status, owned]
  rfl

variable [LinearOrder Node]

theorem Serves.quiet (serves : Serves state action act) : collects (state, action) = none := by
  cases serves with
  | fill | push | trypop => rfl
  | move _ outside => simp [collects, outside]

theorem Sound.fresh (sound : Sound pointersPerThread state)
    (status : state.queue.status node ≠ .retired) (other : Thread) : node ∉ state.held other :=
  fun member => status (sound.kept.listed other node member)

theorem Sound.scanned (sound : Sound pointersPerThread state) (other : Thread) (index : Nat)
    (protects : (state.queue.phase other).protects index = some node) :
    other ∈ state.records := by
  by_contra absent
  rw [sound.registered other absent] at protects
  cases protects

variable [DecidableEq Thread]

theorem Sound.served (sound : Sound pointersPerThread state)
    (holds : Mpmc.Sound state.queue members owner) (moves : Mpmc.Move state.queue act queue)
    (unclaimed : ∀ node, act ≠ .reclaim node)
    (mover : ∀ thread, thread ∉ state.records → act.mover ≠ some thread) :
    Sound pointersPerThread { state with queue } := by
  refine sound.follow ?_ ?_ ?_ ?_
  · exact fun node retired => (moves.turns node).retired (unclaimed node) retired
  · exact fun node freed => (moves.turns node).free (unclaimed node) freed
  · intro thread absent
    rw [moves.phase_of_ne (mover thread absent)]
    exact sound.registered thread absent
  · intro other index node protects
    exact (moves.protects holds protects).imp id fun listed => holds.busy_of_queued listed

theorem status_of_retiring (phase : state.queue.phase thread = .retiring head value)
    (stepped : Mpmc.step state.queue (.move thread spurious) = some queue) :
    queue.status = update state.queue.status head .retired := by
  simp only [Mpmc.step, Mpmc.move, phase] at stepped
  cases stepped
  rfl

theorem status_of_dispose (stepped : Mpmc.step state.queue (.dispose node) = some queue) :
    state.queue.status node = .free ∧ queue.status = update state.queue.status node .retired := by
  obtain ⟨free, rfl⟩ : state.queue.status node = .free ∧ _ = queue := by
    simpa [Mpmc.step, Mpmc.pass] using stepped
  exact ⟨free, rfl⟩

theorem Move.sound (move : Move pointersPerThread state action after)
    (holds : Mpmc.Sound state.queue members owner) (sound : Sound pointersPerThread state) :
    Sound pointersPerThread after := by
  cases move with
  | use serves stepped =>
    exact sound.served holds (Mpmc.step_moves stepped) (fun _ => serves.unclaimed)
      fun _ absent => serves.mover absent
  | @retire thread head value spurious queue listed outside phase stepped =>
    have served := sound.served holds (Mpmc.step_moves stepped) (fun _ => nofun) (by
      intro other absent same
      cases same
      exact absent listed)
    have unlisted : ∀ other, head ∉ state.held other := by
      refine sound.fresh ?_
      rw [busy_of_retiring holds phase]
      nofun
    refine retire_sound served outside ?_ unlisted
    rw [status_of_retiring phase stepped, update_self]
  | @dispose thread node queue outside stepped =>
    obtain ⟨free, status⟩ := status_of_dispose stepped
    have served := sound.served holds (Mpmc.step_moves stepped) (fun _ => nofun) fun _ _ => nofun
    have unlisted : ∀ other, node ∉ state.held other := by
      refine sound.fresh ?_
      rw [free]
      nofun
    refine retire_sound served outside ?_ unlisted
    rw [status, update_self]
  | stroll _ _ plain unswept lists => exact stroll_sound sound plain unswept lists
  | insert phase =>
    refine sound.turn (fun _ listed => List.mem_cons_of_mem _ listed) (fun _ _ => rfl) ?_ trivial
    rw [State.held, phase]
    exact .refl _
  | enter phase =>
    refine sound.goto (by rw [phase]; rfl) rfl ?_
    exact fun node _ other index protects => sound.scanned other index protects
  | size phase => exact size_sound sound phase
  | collect phase => exact collect_sound sound holds phase
  | take phase => exact take_sound sound phase
  | keep phase => exact keep_sound sound phase
  | collectGarbage phase absent => exact collectGarbage_sound sound phase absent

/-- The queue got into its state on its own, and with care. -/
def Served (queue : Mpmc.State Thread Node Value) : Prop :=
  ∃ history, (Mpmc.machine Thread Node Value).Run history queue ∧
    ∀ taken ∈ history, Mpmc.Careful taken.1 taken.2

theorem Served.sound (served : Served queue) : ∃ members owner, Mpmc.Sound queue members owner := by
  obtain ⟨history, run, careful⟩ := served
  obtain ⟨members, owner, sound, _⟩ := Mpmc.run_keeps run careful
  exact ⟨members, owner, sound⟩

theorem Served.step (served : Served state.queue) (careful : Mpmc.Careful state.queue act)
    (stepped : Mpmc.step state.queue act = some queue) : Served queue := by
  obtain ⟨history, run, earlier⟩ := served
  refine ⟨_, run.step stepped, fun taken member => ?_⟩
  rcases List.mem_append.mp member with before | last
  · exact earlier taken before
  · rw [List.mem_singleton.mp last]
    exact careful

theorem Sound.careful (sound : Sound pointersPerThread state)
    (stepped : Mpmc.step state.queue act = some queue) : Mpmc.Careful state.queue act := by
  intro node reuses thread index protects
  exact sound.guarded thread index node protects ((Mpmc.step_moves stepped).reuses_free reuses)

theorem Move.served (move : Move pointersPerThread state action after)
    (sound : Sound pointersPerThread state) (served : Served state.queue) : Served after.queue := by
  cases move with
  | use _ stepped | retire _ _ _ stepped | dispose _ stepped =>
    exact served.step (sound.careful stepped) stepped
  | @collectGarbage thread plist node rest spurious phase =>
    have stepped : Mpmc.step state.queue (.reclaim node) =
        some { state.queue with status := update state.queue.status node .free } := by
      simp [Mpmc.step, Mpmc.pass, sound.retired_of_swept phase]
    exact served.step (sound.careful stepped) stepped
  | stroll | insert | enter | size | collect | take | keep => exact served

theorem Move.balance (move : Move pointersPerThread state action after)
    (holds : Mpmc.Sound state.queue members owner) (sound : Sound pointersPerThread state)
    (node : Node) :
    (decide (collects (state, action) = some node)).toNat +
        (decide (after.queue.status node = .retired)).toNat =
      (decide (retires (state, action) = some node)).toNat +
        (decide (state.queue.status node = .retired)).toNat := by
  cases move with
  | @use action act queue serves stepped =>
    have turns := (Mpmc.step_moves stepped).turns node
    have same : queue.status node = .retired ↔ state.queue.status node = .retired := by
      refine ⟨fun becomes => ?_, turns.retired serves.unclaimed⟩
      generalize queue.status node = status at turns becomes
      cases turns with
      | same => exact becomes
      | push | reclaim => cases becomes
      | @retire thread _ value spurious phase =>
        cases serves with
        | move _ _ others => exact (others node value phase).elim
      | dispose => cases serves
    simp [serves.quiet, serves.mute, same]
  | @retire thread head value spurious queue listed outside phase stepped =>
    have retired : retires (state, .move thread spurious) = some head := by
      simp [retires, outside, phase]
    have quiet : collects (state, .move thread spurious) = none := by simp [collects, outside]
    have busy := busy_of_retiring holds phase
    simp only [State.retire, status_of_retiring phase stepped, retired, quiet]
    by_cases same : node = head
    · simp [same, busy]
    · simp [update_of_ne same, Ne.symm same]
  | @dispose thread disposed queue outside stepped =>
    obtain ⟨free, status⟩ := status_of_dispose stepped
    simp only [State.retire, status, retires, collects]
    by_cases same : node = disposed
    · simp [same, free]
    · simp [update_of_ne same, Ne.symm same]
  | stroll mute quiet => simp [mute, quiet]
  | insert phase | size phase | take phase => simp [retires, collects, phase]
  | enter phase | collect phase =>
    simp only [retires, collects, phase]
    rfl
  | keep phase found => simp [retires, collects, phase, found]
  | @collectGarbage thread plist swept rest spurious phase absent =>
    have retired := sound.retired_of_swept phase
    by_cases same : node = swept
    · simp [retires, collects, phase, absent, same, retired]
    · simp [retires, collects, phase, absent, update_of_ne same, Ne.symm same]

end Steps

section Runs

variable {Thread Node Value : Type} [DecidableEq Thread] [LinearOrder Node]
variable {pointersPerThread : Nat} {state : State Thread Node Value}
variable {history : History Thread Node Value}

theorem init_sound (room : mpmcHazardCount ≤ pointersPerThread)
    (initial : (Mpmc.machine Thread Node Value).initial queue) :
    Sound pointersPerThread (init queue) := by
  obtain ⟨initialNode, prev, value, rfl⟩ := initial
  refine ⟨room, ⟨?_, ?_, ?_⟩, fun _ _ => rfl, nofun, fun _ => trivial⟩
  · intro thread node member
    simp [State.held, init, Phase.swept] at member
  · intro thread
    exact List.nodup_nil
  · intro thread other node member
    simp [State.held, init, Phase.swept] at member

theorem run_sound (run : (machine Thread Node Value pointersPerThread).Run history state) :
    Sound pointersPerThread state ∧ Served state.queue := by
  refine run.invariant (fun _ state => Sound pointersPerThread state ∧ Served state.queue) ?_ ?_
  · rintro _ ⟨room, queue, initial, rfl⟩
    exact ⟨init_sound room initial, [], .start initial, nofun⟩
  · rintro history before action after ⟨sound, served⟩ stepped
    obtain ⟨members, owner, holds⟩ := served.sound
    have moves := step_moves stepped
    exact ⟨moves.sound holds sound, moves.served sound served⟩

/-- How often the node was handed to `hazard_pointer_free`. -/
def retirements (node : Node) (history : History Thread Node Value) : Nat :=
  history.countP fun taken => retires taken = some node

/-- How often the node was handed to its `gc_function`. -/
def collections (node : Node) (history : History Thread Node Value) : Nat :=
  history.countP fun taken => collects taken = some node

theorem run_balance (run : (machine Thread Node Value pointersPerThread).Run history state)
    (node : Node) :
    collections node history + (decide (state.queue.status node = .retired)).toNat =
      retirements node history := by
  refine (Machine.Run.invariant_of_allowed (fun _ _ => True)
    (fun history state => collections node history +
      (decide (state.queue.status node = .retired)).toNat = retirements node history)
    ?_ ?_ run fun _ _ => trivial)
  · rintro _ ⟨room, queue, ⟨initialNode, prev, value, rfl⟩, rfl⟩
    by_cases same : node = initialNode
    · simp [collections, retirements, init, Mpmc.init, same]
    · simp [collections, retirements, init, Mpmc.init, update_of_ne same]
  · intro history before action after run balance _ stepped
    obtain ⟨sound, served⟩ := run_sound run
    obtain ⟨members, owner, holds⟩ := served.sound
    have step := (step_moves stepped).balance holds sound node
    simp only [collections, retirements, countP_snoc] at balance ⊢
    omega

omit [DecidableEq Thread] [LinearOrder Node] in
/-- The nodes that the queue's `prev` fields lead to. -/
def Linked (queue : Mpmc.State Thread Node Value) : Node → Prop :=
  Relation.ReflTransGen (fun node prev => queue.prev node = some prev) queue.head

theorem mem_of_linked (holds : Mpmc.Sound queue members owner)
    (linked : Linked queue node) : node ∈ queue.head :: members.members := by
  induction linked with
  | refl => exact List.mem_cons_self
  | tail _ leads ih =>
    exact List.mem_cons_of_mem _ (holds.published.represents.links.next_mem ih leads)

theorem Sound.collects_unused (sound : Sound pointersPerThread state) (served : Served state.queue)
    (collected : collects (state, action) = some node) :
    ¬ Linked state.queue node ∧
      ∀ thread index, (state.queue.phase thread).protects index ≠ some node := by
  obtain ⟨members, owner, holds⟩ := served.sound
  obtain ⟨thread, plist, rest, phase, absent⟩ : ∃ thread plist rest,
      state.phase thread = .sweeping plist (node :: rest) ∧ binarySearch plist node = false := by
    cases action with
    | move thread spurious =>
      cases phase : state.phase thread with
      | sweeping plist nodes =>
        cases nodes with
        | nil => simp [collects, phase] at collected
        | cons first rest =>
          obtain ⟨absent, rfl⟩ : binarySearch plist first = false ∧ first = node := by
            simpa [collects, phase] using collected
          exact ⟨thread, plist, rest, phase, absent⟩
      | _ => simp [collects, phase] at collected
    | _ => cases collected
  refine ⟨fun linked => ?_, sound.unprotected phase absent⟩
  have busy := holds.busy_of_queued (mem_of_linked holds linked)
  rw [sound.retired_of_swept phase] at busy
  cases busy

/-- A `gc_function` is never handed a node that the queue leads to or that a thread
has validated and may still use, and retirements and calls of the `gc_function`
take turns. -/
theorem reclamation_safe (run : (machine Thread Node Value pointersPerThread).Run history state) :
    (∀ taken ∈ history, ∀ node, collects taken = some node → ¬ Linked taken.1.queue node ∧
        ∀ thread index, (taken.1.queue.phase thread).protects index ≠ some node) ∧
    ∀ node, collections node history ≤ retirements node history ∧
      retirements node history ≤ collections node history + 1 := by
  refine ⟨fun taken member node collected => ?_, fun node => ?_⟩
  · obtain ⟨earlier, run⟩ := run.reachable_of_mem member
    obtain ⟨sound, served⟩ := run_sound run
    exact sound.collects_unused served collected
  · have balance := run_balance run node
    have once := Bool.toNat_le (decide (state.queue.status node = .retired))
    omega

end Runs

/-- Both threads register, one pushes what the other pops, and the popping thread's
scan gives the old head back, to be pushed again. -/
def recycled : List (Action Bool Nat Nat) :=
  List.flatten [.register true :: List.replicate 3 (.move true false),
    .register false :: List.replicate 5 (.move false false),
    .fill 1 11 none :: .push true 1 :: List.replicate 7 (.move true false),
    .trypop false :: List.replicate 12 (.move false false),
    .scan false :: List.replicate 9 (.move false false),
    .fill 0 22 (some 2) :: .push true 0 :: List.replicate 7 (.move true false)]

def blank : State Bool Nat Nat := init (Mpmc.init 0 (fun _ => none) fun _ => 0)

theorem reclamation_safe_recycled : ∃ history state,
    (machine Bool Nat Nat 2).Run history state ∧ state.queue.tail = 0 ∧
      retirements 0 history = 1 ∧ collections 0 history = 1 ∧
      ∀ taken ∈ history, collects taken = some 0 → ¬ Linked taken.1.queue 0 ∧
          ∀ thread index, (taken.1.queue.phase thread).protects index ≠ some 0 := by
  have run := Machine.run_of_isSome
    (show (machine Bool Nat Nat 2).initial blank from ⟨by decide, _, ⟨0, _, _, rfl⟩, rfl⟩)
    (show ((machine Bool Nat Nat 2).exec blank recycled).isSome by decide +kernel)
  exact ⟨_, _, run, by decide +kernel, by decide +kernel, by decide +kernel,
    fun taken member => (reclamation_safe run).1 taken member 0⟩

end LibFiber.Hazard
