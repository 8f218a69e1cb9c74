import LibFiber.Hazard.Moves
import LibFiber.Mpmc.Fifo

namespace LibFiber.Hazard

open Semantics Data Function

/-! A scan finds every validated slot that matters.

A thread validates only nodes that are in the queue, so whoever has a retired node
validated has had it in the slot since before the node was retired, and before
the scan for it began.  The scan comes to that slot or has seen the node there.
-/

/-- The nodes that a scan has taken off the retired list and not sorted out yet. -/
def Phase.swept {Thread Node : Type} : Phase Thread Node → List Node
  | .sweeping _ nodes => nodes
  | _ => []

def State.held {Thread Node Value : Type} (state : State Thread Node Value) (thread : Thread) :
    List Node :=
  (state.record thread).retiredList ++ (state.phase thread).swept

/-- The threads' retired nodes: each is in one list, once. -/
structure Kept {Thread Node : Type} (status : Node → Mpmc.Status) (held : Thread → List Node) :
    Prop where
  listed : ∀ thread, ∀ node ∈ held thread, status node = .retired
  distinct : ∀ thread, (held thread).Nodup
  apart : ∀ thread other node, node ∈ held thread → node ∈ held other → other = thread

section Lists

variable {Thread Node : Type}
variable {after : Thread → List Node}

theorem Kept.perm (kept : Kept status held)
    (same : ∀ thread, (after thread).Perm (held thread)) : Kept status after where
  listed thread node member := kept.listed thread node ((same thread).mem_iff.mp member)
  distinct thread := (same thread).nodup_iff.mpr (kept.distinct thread)
  apart thread other node left right :=
    kept.apart thread other node ((same thread).mem_iff.mp left) ((same other).mem_iff.mp right)

theorem Kept.of_status (kept : Kept status held)
    (still : ∀ node, status node = .retired → later node = .retired) : Kept later held :=
  { kept with listed := fun thread node member => still node (kept.listed thread node member) }

theorem Kept.add (kept : Kept status held) (thread : Thread) (retired : status node = .retired)
    (fresh : ∀ other, node ∉ held other) (mine : after thread = node :: held thread)
    (others : ∀ other, other ≠ thread → after other = held other) : Kept status after := by
  have found : ∀ {other element}, element ∈ after other →
      (other = thread ∧ element = node) ∨ element ∈ held other := by
    intro other element member
    by_cases same : other = thread
    · subst other
      rw [mine] at member
      exact (List.mem_cons.mp member).imp (fun equal => ⟨rfl, equal⟩) id
    · exact .inr (others other same ▸ member)
  refine ⟨?_, ?_, ?_⟩
  · intro other element member
    rcases found member with ⟨_, rfl⟩ | earlier
    · exact retired
    · exact kept.listed other element earlier
  · intro other
    by_cases same : other = thread
    · rw [same, mine]
      exact List.nodup_cons.mpr ⟨fresh thread, kept.distinct thread⟩
    · rw [others other same]
      exact kept.distinct other
  · intro first second element left right
    rcases found left with ⟨rfl, rfl⟩ | earlier
    · rcases found right with ⟨same, _⟩ | later
      · exact same
      · exact (fresh second later).elim
    · rcases found right with ⟨_, rfl⟩ | later
      · exact (fresh first earlier).elim
      · exact kept.apart first second element earlier later

theorem Kept.remove (kept : Kept status held) (thread : Thread) (node : Node)
    (mine : (node :: after thread).Perm (held thread))
    (others : ∀ other, other ≠ thread → after other = held other)
    (still : ∀ element, element ≠ node → later element = status element) : Kept later after := by
  have inside : ∀ {other element}, element ∈ after other → element ∈ held other := by
    intro other element member
    by_cases same : other = thread
    · subst other
      exact mine.mem_iff.mp (List.mem_cons_of_mem _ member)
    · exact others other same ▸ member
  have distinct := mine.nodup_iff.mpr (kept.distinct thread)
  have absent : ∀ {other element}, element ∈ after other → element ≠ node := by
    rintro other element member rfl
    have own : element ∈ held thread := mine.mem_iff.mp List.mem_cons_self
    obtain rfl := kept.apart thread other element own (inside member)
    exact (List.nodup_cons.mp distinct).1 member
  refine ⟨?_, ?_, ?_⟩
  · intro other element member
    exact (still element (absent member)).trans (kept.listed other element (inside member))
  · intro other
    by_cases same : other = thread
    · rw [same]
      exact (List.nodup_cons.mp distinct).2
    · rw [others other same]
      exact kept.distinct other
  · intro first second element left right
    exact kept.apart first second element (inside left) (inside right)

end Lists

section Invariant

variable {Thread Node Value : Type} [LinearOrder Node]

/-- Whoever has one of the thread's retired nodes validated is still to be found,
or has been. -/
def Phase.Covers (queue : Mpmc.State Thread Node Value) (retired : List Node) :
    Phase Thread Node → Prop
  | .sizing head => ∀ node ∈ retired, ∀ other index,
      (queue.phase other).protects index = some node → other ∈ head
  | .collecting plist slots => ∀ node ∈ retired, ∀ other index,
      (queue.phase other).protects index = some node → node ∈ plist ∨ (other, index) ∈ slots
  | .sweeping plist nodes => plist.Pairwise (· ≤ ·) ∧ ∀ node ∈ nodes, ∀ other index,
      (queue.phase other).protects index = some node → node ∈ plist
  | _ => True

structure Sound (pointersPerThread : Nat) (state : State Thread Node Value) : Prop where
  room : mpmcHazardCount ≤ pointersPerThread
  kept : Kept state.queue.status state.held
  registered : ∀ thread, thread ∉ state.records → state.queue.phase thread = .idle
  guarded : ∀ thread index node, (state.queue.phase thread).protects index = some node →
    state.queue.status node ≠ .free
  covers : ∀ thread, (state.phase thread).Covers state.queue (state.record thread).retiredList

variable {state : State Thread Node Value}
variable {queue : Mpmc.State Thread Node Value}

theorem Phase.Covers.of_plain {retired : List Node} {phase : Phase Thread Node}
    (plain : phase.plain) : phase.Covers queue retired := by
  cases phase with
  | sizing | collecting | sweeping => cases plain
  | outside | counting | inserting | raising | testing | entering => trivial

theorem Phase.Covers.follow {retired : List Node} {phase : Phase Thread Node}
    (covers : phase.Covers state.queue retired)
    (listed : ∀ node ∈ retired ++ phase.swept, state.queue.status node = .retired)
    (validated : ∀ other index node, (queue.phase other).protects index = some node →
      (state.queue.phase other).protects index = some node ∨ state.queue.status node = .busy) :
    phase.Covers queue retired := by
  have earlier : ∀ node ∈ retired ++ phase.swept, ∀ other index,
      (queue.phase other).protects index = some node →
        (state.queue.phase other).protects index = some node := by
    intro node member other index protects
    rcases validated other index node protects with before | busy
    · exact before
    · rw [listed node member] at busy
      cases busy
  cases phase with
  | sizing head | collecting plist slots =>
    intro node member other index protects
    exact covers node member other index
      (earlier node (List.mem_append_left _ member) other index protects)
  | sweeping plist nodes =>
    refine ⟨covers.1, fun node member other index protects => ?_⟩
    exact covers.2 node member other index
      (earlier node (List.mem_append_right _ member) other index protects)
  | outside | counting | inserting | raising | testing | entering => trivial

theorem Sound.follow (sound : Sound pointersPerThread state)
    (retired : ∀ node, state.queue.status node = .retired → queue.status node = .retired)
    (unfreed : ∀ node, queue.status node = .free → state.queue.status node = .free)
    (idle : ∀ thread, thread ∉ state.records → queue.phase thread = .idle)
    (validated : ∀ other index node, (queue.phase other).protects index = some node →
      (state.queue.phase other).protects index = some node ∨ state.queue.status node = .busy) :
    Sound pointersPerThread { state with queue } where
  room := sound.room
  kept := sound.kept.of_status retired
  registered := idle
  guarded other index node protects freed := by
    have free := unfreed node freed
    rcases validated other index node protects with before | busy
    · exact sound.guarded other index node before free
    · rw [busy] at free
      cases free
  covers other := (sound.covers other).follow (sound.kept.listed other) validated

variable [DecidableEq Thread]

section

variable (sound : Sound pointersPerThread state)
include sound

theorem Sound.turn
    (grown : ∀ other ∈ state.records, other ∈ records) (others : ∀ other, other ≠ thread →
      (record other).retiredList = (state.record other).retiredList)
    (mine : ((record thread).retiredList ++ next.swept).Perm (state.held thread))
    (covers : next.Covers state.queue (record thread).retiredList) :
    Sound pointersPerThread
      { state with records, record, phase := update state.phase thread next } where
  room := sound.room
  kept := by
    refine sound.kept.perm fun other => ?_
    by_cases same : other = thread
    · subst other
      simpa [State.held] using mine
    · simp [State.held, others other same, update_of_ne same]
  registered other absent := sound.registered other fun listed => absent (grown other listed)
  guarded := sound.guarded
  covers other := by
    by_cases same : other = thread
    · subst other
      simpa using covers
    · simpa [update_of_ne same, others other same] using sound.covers other

theorem Sound.goto (unswept : (state.phase thread).swept = []) (also : next.swept = [])
    (covers : next.Covers state.queue (state.record thread).retiredList) :
    Sound pointersPerThread (state.goto thread next) := by
  refine sound.turn (fun _ listed => listed) (fun _ _ => rfl) ?_ covers
  rw [State.held, unswept, also]

theorem stroll_sound {record : Thread → Record Node} (plain : next.plain)
    (unswept : ∀ plist node rest, state.phase thread ≠ .sweeping plist (node :: rest))
    (lists : ∀ other, (record other).retiredList = (state.record other).retiredList) :
    Sound pointersPerThread
      { state with record, phase := update state.phase thread next } := by
  have empty : (state.phase thread).swept = [] := by
    cases phase : state.phase thread with
    | sweeping plist nodes =>
      cases nodes with
      | nil => rfl
      | cons node rest => exact (unswept plist node rest phase).elim
    | outside | counting | inserting | raising | testing | entering | sizing | collecting => rfl
  have also : next.swept = [] := by
    cases next with
    | sizing | collecting | sweeping => cases plain
    | outside | counting | inserting | raising | testing | entering => rfl
  refine sound.turn (fun _ listed => listed) (fun other _ => lists other) ?_ (.of_plain plain)
  rw [State.held, empty, also, lists]

theorem size_sound (phase : state.phase thread = .sizing head) :
    Sound pointersPerThread
      { state with
        record := update state.record thread { state.record thread with plistSize := size }
        phase := update state.phase thread (.collecting [] (slotsOf pointersPerThread head)) } := by
  have lists : ∀ other, (update state.record thread
      { state.record thread with plistSize := size } other).retiredList =
        (state.record other).retiredList := by
    intro other
    by_cases same : other = thread
    · rw [same, update_self]
    · rw [update_of_ne same]
  refine sound.turn (fun _ listed => listed) (fun other _ => lists other) ?_ ?_
  · rw [State.held, lists, phase]
    exact .refl _
  · rw [lists]
    have covers := sound.covers thread
    rw [phase] at covers
    intro node member other index protects
    -- Only the first two slots are ever validated, and a record has them.
    have within : index < pointersPerThread := by
      have room := sound.room
      rcases index with _ | _ | index
      · exact Nat.lt_of_lt_of_le (by decide) room
      · exact Nat.lt_of_lt_of_le (by decide) room
      · have shown := Mpmc.Phase.shows_of_protects protects
        simp [Mpmc.shows_add_two] at shown
    refine .inr (List.mem_flatMap.mpr ⟨other, covers node member other index protects, ?_⟩)
    exact List.mem_map.mpr ⟨index, List.mem_range.mpr within, rfl⟩

theorem collect_sound {members : LinkedFifo Node} {owner : Node → Mpmc.Owner Thread}
    {slot : Thread × Nat} {rest : List (Thread × Nat)}
    (queue : Mpmc.Sound state.queue members owner)
    (phase : state.phase thread = .collecting plist (slot :: rest)) :
    Sound pointersPerThread
      (state.goto thread (.collecting (plist ++ (state.queue.slot slot).toList) rest)) := by
  refine sound.goto (by rw [phase]; rfl) rfl ?_
  have covers := sound.covers thread
  rw [phase] at covers
  intro node member other index protects
  rcases covers node member other index protects with seen | ahead
  · exact .inl (List.mem_append_left _ seen)
  · rcases List.mem_cons.mp ahead with rfl | later
    · have shown := (queue.threads other).slots index node (Mpmc.Phase.shows_of_protects protects)
      exact .inl (List.mem_append_right _ (by simp [shown]))
    · exact .inr later

theorem take_sound (phase : state.phase thread = .collecting plist []) :
    Sound pointersPerThread
      { state with
        record := update state.record thread
          { state.record thread with retiredList := [], retiredCount := 0 }
        phase := update state.phase thread
          (.sweeping (plist.insertionSort (· ≤ ·)) (state.record thread).retiredList) } := by
  refine sound.turn (fun _ listed => listed) ?_ ?_ ⟨List.pairwise_insertionSort _ _, ?_⟩
  · intro other apart
    rw [update_of_ne apart]
  · rw [State.held, phase, update_self]
    simp [Phase.swept]
  · have covers := sound.covers thread
    rw [phase] at covers
    intro node member other index protects
    rcases covers node member other index protects with seen | ahead
    · exact (List.mem_insertionSort _).mpr seen
    · cases ahead

theorem keep_sound (phase : state.phase thread = .sweeping plist (node :: rest)) :
    Sound pointersPerThread
      { state with
        record := update state.record thread
          { state.record thread with
            retiredList := node :: (state.record thread).retiredList
            retiredCount := count }
        phase := update state.phase thread (.sweeping plist rest) } := by
  have covers := sound.covers thread
  rw [phase] at covers
  refine sound.turn (fun _ listed => listed) ?_ ?_ ⟨covers.1, ?_⟩
  · intro other apart
    rw [update_of_ne apart]
  · rw [State.held, phase, update_self]
    exact List.perm_middle.symm
  · exact fun element member => covers.2 element (List.mem_cons_of_mem _ member)

omit [DecidableEq Thread] in
theorem Sound.unprotected (phase : state.phase thread = .sweeping plist (node :: rest))
    (absent : binarySearch plist node = false) (other : Thread) (index : Nat) :
    (state.queue.phase other).protects index ≠ some node := by
  have covers := sound.covers thread
  rw [phase] at covers
  intro protects
  have found := (binarySearch_iff covers.1).mpr
    (covers.2 node List.mem_cons_self other index protects)
  simp [absent] at found

omit [DecidableEq Thread] in
theorem Sound.retired_of_swept (phase : state.phase thread = .sweeping plist (node :: rest)) :
    state.queue.status node = .retired := by
  refine sound.kept.listed thread node ?_
  rw [State.held, phase]
  exact List.mem_append_right _ List.mem_cons_self

theorem collectGarbage_sound (phase : state.phase thread = .sweeping plist (node :: rest))
    (absent : binarySearch plist node = false) :
    Sound pointersPerThread
      { state with
        queue := { state.queue with status := update state.queue.status node .free }
        phase := update state.phase thread (.sweeping plist rest) } where
  room := sound.room
  kept := by
    refine sound.kept.remove thread node ?_ ?_ ?_
    · simp only [State.held, phase, update_self]
      exact List.perm_middle.symm
    · intro other apart
      simp [State.held, update_of_ne apart]
    · exact fun element different => update_of_ne different _ _
  registered := sound.registered
  guarded other index element protects := by
    have different : element ≠ node := by
      rintro rfl
      exact sound.unprotected phase absent other index protects
    show update state.queue.status node .free element ≠ .free
    rw [update_of_ne different]
    exact sound.guarded other index element protects
  covers other := by
    by_cases same : other = thread
    · subst other
      have covers := sound.covers thread
      rw [phase] at covers
      show Phase.Covers _ _ (update state.phase thread _ thread)
      rw [update_self]
      exact ⟨covers.1, fun element member => covers.2 element (List.mem_cons_of_mem _ member)⟩
    · show Phase.Covers _ _ (update state.phase thread _ other)
      rw [update_of_ne same]
      exact sound.covers other

theorem retire_sound (outside : state.phase thread = .outside)
    (retired : state.queue.status node = .retired) (fresh : ∀ other, node ∉ state.held other) :
    Sound pointersPerThread (state.retire thread node) where
  room := sound.room
  kept := by
    refine sound.kept.add thread retired fresh ?_ ?_
    · simp [State.retire, State.held, outside, Phase.swept]
    · intro other apart
      simp [State.retire, State.held, update_of_ne apart]
  registered := sound.registered
  guarded := sound.guarded
  covers other := by
    by_cases same : other = thread
    · subst other
      simp [State.retire, Phase.Covers]
    · simpa [State.retire, update_of_ne same] using sound.covers other

end

end Invariant

end LibFiber.Hazard
