import LibFiber.Mpmc.Invariant
import LibFiber.Data.Handover
import LibFiber.Data.Ledger

namespace LibFiber.Mpmc

open Semantics Data Function

/-! `mpmc_fifo` is first in, first out, in the order of the compare-and-swaps of
`tail` and of `head`. -/

section History

variable {Thread Node Value : Type} [DecidableEq Thread] [DecidableEq Node]

/-- The record of the pushes, in the order of their compare-and-swaps. -/
def record (places : List (Place Thread Node Value))
    (taken : State Thread Node Value × Action Thread Node Value) :
    List (Place Thread Node Value) :=
  match taken.2 with
  | .move thread spurious =>
    match taken.1.phase thread with
    | .swappingTail node tail =>
      if taken.1.tail = tail ∧ spurious = false then
        places ++ [⟨thread, node, taken.1.value node, false⟩]
      else places
    | .linking _ _ => settle thread places
    | _ => places
  | _ => places

def places (history : History Thread Node Value) : List (Place Thread Node Value) :=
  history.foldl record []

/-- A pop takes effect at its compare-and-swap. -/
def pops (taken : State Thread Node Value × Action Thread Node Value) : Option (Thread × Value) :=
  match taken.2 with
  | .move thread spurious =>
    match taken.1.phase thread with
    | .swappingHead head _ value =>
      if taken.1.head = head ∧ spurious = false then some (thread, value) else none
    | _ => none
  | _ => none

def popped (history : History Thread Node Value) : List (Thread × Value) :=
  history.filterMap pops

def Phase.result : Phase Node Value → Option Value
  | .returned value => value
  | _ => none

def answers : State Thread Node Value × Action Thread Node Value → Option (Thread × Value)
  | (state, .move thread spurious) =>
    (move state thread spurious).bind fun after => (after.phase thread).result.map (thread, ·)
  | _ => none

def answered (history : History Thread Node Value) : List (Thread × Value) :=
  history.filterMap answers

def Phase.inHand : Phase Node Value → List Value
  | .clearingHead _ value | .clearingPrev _ value | .retiring _ value => [value]
  | _ => []

def Phase.pushing : Phase Node Value → Bool
  | .resetting _ | .loadingTail _ | .publishingTail _ _ | .checkingTail _ _ | .swappingTail _ _
  | .linking _ _ | .unpublishing => true
  | _ => false

variable {state after : State Thread Node Value}
variable {history : History Thread Node Value} {thread : Thread}
variable {spurious : Bool} {next phase : Phase Node Value}
variable {value : Value} {head : Node}

theorem places_append (taken : State Thread Node Value × Action Thread Node Value) :
    places (history ++ [taken]) = record (places history) taken := by
  simp [places]

omit [DecidableEq Thread] in
theorem popped_append (taken : State Thread Node Value × Action Thread Node Value) :
    popped (history ++ [taken]) = popped history ++ (pops taken).toList :=
  filterMap_snoc pops history taken

def Traced (history : History Thread Node Value) (state : State Thread Node Value)
    (queue : LinkedFifo Node) : Prop :=
  Ledger state.pending state.value queue ((popped history).map Prod.snd) (places history)

theorem Traced.carry (traced : Traced history state queue)
    (quiet : record (places history) (state, action) = places history)
    (silent : pops (state, action) = none)
    (same : ∀ node ∈ queue.members, after.value node = state.value node)
    (still : after.pending = state.pending) :
    Traced (history ++ [(state, action)]) after queue := by
  rw [Traced, places_append, popped_append, quiet, silent, still]
  simpa using Ledger.congr traced same

theorem Reads.silent (reads : Reads state spurious (state.phase thread) next) :
    pops (state, .move thread spurious) = none ∧
      ∀ pushes, record pushes (state, .move thread spurious) = pushes := by
  generalize phase : state.phase thread = before at reads
  cases reads with
  | missTail missed | missHead missed => simp [record, pops, phase, missed]
  | loadTail | confirmTail | rejectTail | loadHead | confirmHead | rejectHead | readNull
  | readPrev | reconfirm | rereject | readValue => simp [record, pops, phase]

theorem Stores.silent (stores : Stores (state.phase thread) index stored next) :
    pops (state, .move thread spurious) = none ∧
      ∀ pushes, record pushes (state, .move thread spurious) = pushes := by
  generalize phase : state.phase thread = before at stores
  cases stores <;> simp [record, pops, phase]

omit [DecidableEq Node] in
theorem resting_pending (resting : phase.resting) :
    phase.pending = none := by
  cases phase with
  | idle | returned => rfl
  | _ => cases resting

theorem swapTail_traced (traced : Traced history state queue)
    (phase : state.phase thread = .swappingTail node state.tail) :
    Traced (history ++ [(state, .move thread false)])
      { state with
        tail := node
        phase := update state.phase thread (.linking state.tail node) }
      (queue.exchange node) := by
  have recorded : record (places history) (state, .move thread false) =
      places history ++ [⟨thread, node, state.value node, false⟩] := by
    simp [record, phase]
  have silent : pops (state, .move thread false) = none := by simp [pops, phase]
  have idle : state.pending thread = none := by simp [State.pending, phase, Phase.pending]
  rw [Traced, places_append, popped_append, recorded, silent, State.pending, comp_update,
    Option.toList_none, List.append_nil]
  exact Ledger.exchange traced idle state.tail

theorem link_traced (sound : Sound state queue owner)
    (traced : Traced history state queue) (phase : state.phase thread = .linking tail node) :
    Traced (history ++ [(state, .move thread spurious)])
      { state with
        prev := update state.prev tail (some node)
        phase := update state.phase thread .unpublishing }
      (queue.link node) := by
  have recorded : record (places history) (state, .move thread spurious) =
      settle thread (places history) := by
    simp [record, phase]
  have silent : pops (state, .move thread spurious) = none := by simp [pops, phase]
  rw [Traced, places_append, popped_append, recorded, silent, State.pending, comp_update,
    Option.toList_none, List.append_nil]
  exact Ledger.link traced sound.published (pending_eq phase)

theorem swapHead_traced (sound : Sound state queue owner) (traced : Traced history state queue)
    (phase : state.phase thread = .swappingHead state.head prev value)
    (front : queue.trypop = some (prev, rest)) :
    Traced (history ++ [(state, .move thread false)])
      { state with
        head := prev
        phase := update state.phase thread (.clearingHead state.head value) }
      rest := by
  have recorded : record (places history) (state, .move thread false) = places history := by
    simp [record, phase]
  have taken : pops (state, .move thread false) = some (thread, state.value prev) := by
    simp [pops, phase, (sound.front phase).2]
  have still : Phase.pending ∘ update state.phase thread (.clearingHead state.head value) =
      state.pending := comp_update_of_eq (by rw [phase]; rfl)
  rw [Traced, places_append, popped_append, recorded, taken, State.pending, still, List.map_append]
  exact Ledger.trypop traced front

theorem Move.keeps (move : Move state action after) (careful : Careful state action)
    (sound : Sound state queue owner) (traced : Traced history state queue) :
    ∃ queue owner, Sound after queue owner ∧ Traced (history ++ [(state, action)]) after queue := by
  cases move with
  | fill free =>
    refine ⟨queue, owner, fill_sound sound free careful, traced.carry rfl rfl ?_ rfl⟩
    intro member listed
    exact update_of_ne
      (sound.apart (sound.owner_of_free free) nofun (List.mem_cons_of_mem _ listed)) _ _
  | push resting free =>
    refine ⟨queue, _, push_sound sound resting free careful,
      traced.carry rfl rfl (fun _ _ => rfl) (comp_update_of_eq ?_)⟩
    exact (resting_pending resting).symm
  | trypop resting =>
    refine ⟨queue, owner, trypop_sound sound resting,
      traced.carry rfl rfl (fun _ _ => rfl) (comp_update_of_eq ?_)⟩
    exact (resting_pending resting).symm
  | read reads =>
    exact ⟨queue, owner, read_sound sound reads,
      traced.carry (reads.silent.2 _) reads.silent.1 (fun _ _ => rfl)
        (comp_update_of_eq reads.pending)⟩
  | store stores =>
    exact ⟨queue, owner, store_sound sound stores,
      traced.carry (stores.silent.2 _) stores.silent.1 (fun _ _ => rfl)
        (comp_update_of_eq stores.pending)⟩
  | reset phase =>
    refine ⟨queue, owner, reset_sound sound phase,
      traced.carry (by simp [record, phase]) (by simp [pops, phase]) (fun _ _ => rfl)
        (comp_update_of_eq ?_)⟩
    rw [phase]
    rfl
  | swapTail phase => exact ⟨_, _, swapTail_sound sound phase, swapTail_traced traced phase⟩
  | link phase => exact ⟨_, _, link_sound sound phase, link_traced sound traced phase⟩
  | swapHead phase =>
    obtain ⟨rest, front⟩ := sound.published.trypop_of_next (sound.front phase).1
    exact ⟨rest, _, swapHead_sound sound phase front, swapHead_traced sound traced phase front⟩
  | retire phase =>
    refine ⟨queue, _, retire_sound sound phase,
      traced.carry (by simp [record, phase]) (by simp [pops, phase]) (fun _ _ => rfl)
        (comp_update_of_eq ?_)⟩
    rw [phase]
    rfl
  | dispose free =>
    have owned := sound.owner_of_free free
    exact ⟨queue, _, pass_sound .retired sound owned (.inl rfl) rfl,
      traced.carry rfl rfl (fun _ _ => rfl) rfl⟩
  | reclaim retired =>
    have owned := sound.owner_of_retired retired
    exact ⟨queue, _, pass_sound .client sound owned (.inr rfl) rfl,
      traced.carry rfl rfl (fun _ _ => rfl) rfl⟩

theorem run_keeps (run : (machine Thread Node Value).Run history state)
    (careful : ∀ taken ∈ history, Careful taken.1 taken.2) :
    ∃ queue owner, Sound state queue owner ∧ Traced history state queue := by
  refine Machine.Run.invariant_of_allowed Careful
    (fun history state => ∃ queue owner, Sound state queue owner ∧ Traced history state queue)
    ?_ ?_ run careful
  · rintro _ ⟨initialNode, prev, value, rfl⟩
    exact ⟨_, _, init_sound initialNode prev value, Ledger.empty _ _⟩
  · rintro history before action after _ ⟨queue, owner, sound, traced⟩ allowed stepped
    exact (step_moves stepped).keeps allowed sound traced

omit [DecidableEq Thread] [DecidableEq Node] in
theorem Reads.inHand (reads : Reads state spurious phase next) :
    next.result = none ∧ next.inHand = phase.inHand := by
  cases reads <;> exact ⟨rfl, rfl⟩

omit [DecidableEq Node] in
theorem Stores.inHand (stores : Stores phase index stored next) :
    next.result = none ∧ next.inHand = phase.inHand := by
  cases stores <;> exact ⟨rfl, rfl⟩

omit [DecidableEq Node] in
theorem resting_inHand (resting : phase.resting) : phase.inHand = [] := by
  cases phase with
  | idle | returned => rfl
  | _ => cases resting

theorem answers_eq (stepped : step state (.move thread spurious) = some after)
    (phase : after.phase thread = next) :
    answers (state, .move thread spurious) = next.result.map (thread, ·) := by
  have moved : move state thread spurious = some after := stepped
  simp [answers, moved, phase]

theorem answers_eq_none (stepped : step state (.move thread spurious) = some after)
    (phase : after.phase thread = next) (pending : next.result = none) :
    answers (state, .move thread spurious) = none := by
  rw [answers_eq stepped phase, pending, Option.map_none]

/-- Each pop returns the value that it took out. -/
theorem step_handed (stepped : step state action = some after)
    (handed : Handed (popped history) (answered history) (Phase.inHand ∘ state.phase)) :
    Handed (popped (history ++ [(state, action)])) (answered (history ++ [(state, action)]))
      (Phase.inHand ∘ after.phase) := by
  cases step_moves stepped with
  | fill | dispose | reclaim => exact handed.carry rfl rfl rfl
  | push resting | trypop resting =>
    exact handed.carry rfl rfl (comp_update_of_eq (resting_inHand resting).symm)
  | read reads =>
    exact handed.carry reads.silent.1 (answers_eq_none stepped (update_self _ _ _) reads.inHand.1)
      (comp_update_of_eq reads.inHand.2)
  | store stores =>
    exact handed.carry stores.silent.1
      (answers_eq_none stepped (update_self _ _ _) stores.inHand.1)
      (comp_update_of_eq stores.inHand.2)
  | reset phase | swapTail phase | link phase =>
    refine handed.carry (by simp [pops, phase]) (answers_eq_none stepped (update_self _ _ _) rfl)
      (comp_update_of_eq ?_)
    rw [phase]
    rfl
  | @swapHead thread prev value phase =>
    have took : pops (state, .move thread false) = some (thread, value) := by simp [pops, phase]
    exact handed.taken took (answers_eq_none stepped (update_self _ _ _) rfl)
      (by simp [phase, Phase.inHand]) (comp_update Phase.inHand state.phase thread _)
  | @retire thread head value spurious phase =>
    have gave : answers (state, .move thread spurious) = some (thread, value) :=
      answers_eq stepped (update_self _ _ _)
    exact handed.given (by simp [pops, phase]) gave (by simp [phase, Phase.inHand])
      (comp_update Phase.inHand state.phase thread _)

theorem run_handed (run : (machine Thread Node Value).Run history state) :
    Handed (popped history) (answered history) (Phase.inHand ∘ state.phase) := by
  refine run.invariant (fun history state =>
    Handed (popped history) (answered history) (Phase.inHand ∘ state.phase)) ?_ ?_
  · intro state initial
    obtain ⟨initialNode, prev, value, rfl⟩ := initial
    exact Handed.start
  · intro history before action after handed stepped
    exact step_handed stepped handed

theorem Sound.finds_nothing (sound : Sound state queue owner) (traced : Traced history state queue)
    (phase : state.phase thread = .readingPrev head) (null : state.prev head = none) :
    ∀ place, (places history)[(popped history).length]? = some place → place.linked = false := by
  have fits := (sound.threads thread).fits
  rw [phase] at fits
  rcases fits with rfl | ⟨leads, _⟩
  · rw [sound.published.represents.next_head, Option.map_eq_none_iff] at null
    have nothing := (Ledger.trypop_eq_none traced).mp null
    simpa using nothing
  · exact (leads null).elim

/-- When the thread read null in `head->prev`, in the call of `mpmc_fifo_trypop` that it
is in or that was its last, the earliest push left had not been linked, or there was none. -/
def Vacant (history : History Thread Node Value) (thread : Thread) : Prop :=
  ∃ earlier before spurious head later,
    history = earlier ++ (before, .move thread spurious) :: later ∧
    before.phase thread = .readingPrev head ∧ before.prev head = none ∧
    (∀ place, (places earlier)[(popped earlier).length]? = some place → place.linked = false) ∧
    ∀ taken ∈ later, taken.2 ≠ .trypop thread

theorem Vacant.snoc (vacant : Vacant history thread) (other : action ≠ .trypop thread) :
    Vacant (history ++ [(state, action)]) thread := by
  obtain ⟨earlier, before, spurious, head, later, rfl, phase, null, unlinked, since⟩ := vacant
  refine ⟨earlier, before, spurious, head, later ++ [(state, action)], by simp, phase, null,
    unlinked, ?_⟩
  intro taken member
  rcases List.mem_append.mp member with before | last
  · exact since taken before
  · obtain rfl := List.mem_singleton.mp last
    exact other

/-- It has found nothing. -/
def Phase.empty : Phase Node Value → Bool
  | .leaving | .returned none => true
  | _ => false

theorem Move.empty (move : Move state action after) (empty : (after.phase thread).empty) :
    action ≠ .trypop thread ∧ ((state.phase thread).empty ∨ ∃ spurious head,
      action = .move thread spurious ∧ state.phase thread = .readingPrev head ∧
        state.prev head = none) := by
  have others : ∀ agent phase, thread ≠ agent →
      (update state.phase agent phase thread).empty → (state.phase thread).empty :=
    fun agent phase apart empty => by rwa [update_of_ne apart] at empty
  cases move with
  | fill | dispose | reclaim => exact ⟨nofun, .inl empty⟩
  | @push agent | @trypop agent | @reset agent | @swapTail agent | @link agent | @swapHead agent
  | @retire agent =>
    by_cases same : thread = agent
    · subst agent
      simp [State.goto, Phase.empty] at empty
    · exact ⟨by simp [Ne.symm same], .inl (others agent _ same empty)⟩
  | @store agent _ _ next _ stores =>
    by_cases same : thread = agent
    · subst agent
      refine ⟨nofun, .inl ?_⟩
      have ends : next.empty := by simpa [State.goto] using empty
      generalize state.phase thread = before at stores ⊢
      cases stores with
      | empty => rfl
      | tail | pushed | head | prev | clearHead | clearPrev => cases ends
    · exact ⟨nofun, .inl (others agent _ same empty)⟩
  | @read _ agent next reads =>
    by_cases same : thread = agent
    · subst agent
      refine ⟨nofun, .inr ?_⟩
      have ends : next.empty := by simpa [State.goto] using empty
      generalize state.phase thread = before at reads ⊢
      cases reads with
      | readNull found => exact ⟨_, _, rfl, rfl, found⟩
      | _ => cases ends
    · exact ⟨nofun, .inl (others agent _ same empty)⟩

theorem run_vacant (run : (machine Thread Node Value).Run history state)
    (careful : ∀ taken ∈ history, Careful taken.1 taken.2) :
    (state.phase thread).empty → Vacant history thread := by
  refine Machine.Run.invariant_of_allowed Careful (fun history state =>
    (∀ taken ∈ history, Careful taken.1 taken.2) →
      (state.phase thread).empty → Vacant history thread) ?_ ?_ run careful careful
  · intro state initial _ empty
    obtain ⟨initialNode, prev, value, rfl⟩ := initial
    cases empty
  · intro history before action after earlier vacant _ stepped careful empty
    replace careful := (List.forall_mem_append.mp careful).1
    obtain ⟨other, still | ⟨spurious, head, rfl, phase, null⟩⟩ := (step_moves stepped).empty empty
    · exact (vacant careful still).snoc other
    · obtain ⟨queue, owner, sound, traced⟩ := run_keeps earlier careful
      exact ⟨history, before, spurious, head, [], rfl, phase, null,
        sound.finds_nothing traced phase null, nofun⟩

/-- The queue is first in, first out: what is popped is what was pushed in the
order of the successful compare-and-swaps, each pop returns the value it took
out, a pop that returns NULL has read `head->prev` while the earliest push left was not
linked or there was none, and between pushes the `prev` fields lead from `head` to
`tail` through the values that are left. -/
theorem mpmc_refines_fifo (run : (machine Thread Node Value).Run history state)
    (careful : ∀ taken ∈ history, Careful taken.1 taken.2) :
    (popped history).map Prod.snd <+: (places history).map Place.value ∧
    (∀ thread, own thread (popped history) =
      own thread (answered history) ++ (state.phase thread).inHand) ∧
    (∀ thread, state.phase thread = .returned none → Vacant history thread) ∧
    ((∀ thread, (state.phase thread).pushing = false) →
      ∃ nodes, LinkedFifo.Path state.prev state.tail state.head nodes ∧
        state.prev state.tail = none ∧
        nodes.map state.value =
          ((places history).map Place.value).drop (popped history).length) := by
  obtain ⟨queue, owner, sound, traced⟩ := run_keeps run careful
  refine ⟨Ledger.taken_isPrefix traced, run_handed run, ?_, ?_⟩
  · intro thread phase
    exact run_vacant run careful (by rw [phase]; rfl)
  · intro quiet
    have idle : ∀ thread, state.pending thread = none := by
      intro thread
      have resting := quiet thread
      cases phase : state.phase thread with
      | linking tail node => simp [phase, Phase.pushing] at resting
      | _ => simp [State.pending, phase, Phase.pending]
    obtain ⟨path, ends⟩ := sound.published.path idle
    refine ⟨queue.members, path, ends, ?_⟩
    have values := Ledger.values traced
    rw [values, List.drop_left' (by simp)]

end History

/-- Whether no thread has the node validated that the step uses again. -/
def checks (taken : State Bool Nat Nat × Action Bool Nat Nat) : Bool :=
  taken.2.reuses.all fun node =>
    [true, false].all fun thread =>
      [0, 1].all fun index => (taken.1.phase thread).protects index != some node

theorem careful_of_checks (checked : checks taken) : Careful taken.1 taken.2 := by
  intro node reuses thread index protects
  have unprotected : ∀ thread, (taken.1.phase thread).protects 0 ≠ some node ∧
      (taken.1.phase thread).protects 1 ≠ some node := by
    rintro (_ | _) <;> simp_all [checks]
  rcases index with _ | _ | index
  · exact (unprotected thread).1 protects
  · exact (unprotected thread).2 protects
  · have shown := Phase.shows_of_protects protects
    simp [shows_add_two] at shown

/-- A pop finds nothing while the push before it has not linked its node; once it
has, the value is popped, and the old head is reclaimed and pushed again. -/
def recycled : List (Action Bool Nat Nat) :=
  List.flatten [.fill 1 11 none :: .push true 1 :: List.replicate 5 (.move true false),
    .trypop false :: List.replicate 5 (.move false false), List.replicate 2 (.move true false),
    .trypop false :: List.replicate 11 (.move false false),
    .reclaim 0 :: .fill 0 22 (some 2) :: .push true 0 :: List.replicate 7 (.move true false)]

def blank : State Bool Nat Nat := init 0 (fun _ => none) (fun _ => 0)

theorem mpmc_refines_fifo_recycled : ∃ history state,
    (machine Bool Nat Nat).Run history state ∧
      (∀ taken ∈ history, Careful taken.1 taken.2) ∧ popped history = [(false, 11)] ∧
      (places history).map Place.value = [11, 22] ∧
      (∀ thread, (state.phase thread).pushing = false) ∧
      ∃ nodes, LinkedFifo.Path state.prev state.tail state.head nodes ∧
        state.prev state.tail = none ∧
        nodes.map state.value =
          ((places history).map Place.value).drop (popped history).length := by
  have run := Machine.run_of_isSome
    (show (machine Bool Nat Nat).initial blank from ⟨0, _, _, rfl⟩)
    (show ((machine Bool Nat Nat).exec blank recycled).isSome by decide +kernel)
  have checked : ((machine Bool Nat Nat).trail blank recycled).all checks := by
    decide +kernel
  have careful : ∀ taken ∈ (machine Bool Nat Nat).trail blank recycled, Careful taken.1 taken.2 :=
    fun taken member => careful_of_checks (List.all_eq_true.mp checked taken member)
  have quiet : ∀ thread, ((((machine Bool Nat Nat).exec blank recycled).get
      (by decide +kernel)).phase thread).pushing = false := by
    rintro (_ | _) <;> decide +kernel
  exact ⟨_, _, run, careful, by decide +kernel, by decide +kernel, quiet,
    (mpmc_refines_fifo run careful).2.2.2 quiet⟩

end LibFiber.Mpmc
