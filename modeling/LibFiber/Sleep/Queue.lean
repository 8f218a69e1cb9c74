import LibFiber.Semantics.Machine
import LibFiber.Sleep.Tree

namespace LibFiber.Sleep.Queue

open Data Semantics Function

/-! The tree of sleepers as a priority queue, under any calls of `waiter_insert` and
`waiter_remove_less_than`, one after the other as `sleep_spinlock` orders them. -/

section Operations

variable {Fiber Addr : Type}

/-- The elements from one that was taken out to the end of its list, or nothing when
there are more than `fuel` of them. -/
def walk (element : Addr → Element Fiber Addr) : Nat → Addr → Option (List Addr)
  | 0, _ => none
  | fuel + 1, addr =>
    match (element addr).next with
    | none => some [addr]
    | some next => (walk element fuel next).map (addr :: ·)

/-- The loops of `fiber_event_wake_sleepers`: `waiter_remove_less_than` until it
returns `NULL`, with a walk along every list that it returns. -/
def drain (element : Addr → Element Fiber Addr) (wakeTime : Nat) :
    Nat → Tree Addr → Option (List Addr × Tree Addr)
  | 0, _ => none
  | fuel + 1, tree =>
    match waiterRemoveLessThan element wakeTime tree with
    | none => some ([], tree)
    | some (node, rest) =>
      (walk element fuel node).bind fun list =>
        (drain element wakeTime fuel rest).map fun (later, last) => (list ++ later, last)

structure State (Fiber Addr : Type) where
  element : Addr → Element Fiber Addr
  tree : Tree Addr
  /-- What was inserted and is not removed yet. -/
  held : List Addr

inductive Action (Fiber Addr : Type) where
  | insert (node : Addr) (wakeTime : Nat)
  | remove (wakeTime : Nat)
  /-- An element that is not in the tree is used for something else. -/
  | write (addr : Addr) (value : Element Fiber Addr)

/-- A caller inserts an element that it has initialised, and takes the whole list of
the one that it removes. -/
def step [DecidableEq Addr] (state : State Fiber Addr) :
    Action Fiber Addr → Option (State Fiber Addr)
  | .insert node wakeTime =>
    if node ∉ state.held then
      let element := update state.element node ⟨wakeTime, none, none⟩
      let inserted := waiterInsert element node state.tree
      some ⟨inserted.2, inserted.1, node :: state.held⟩
    else none
  | .remove wakeTime =>
    match waiterRemoveLessThan state.element wakeTime state.tree with
    | none => some state
    | some (node, rest) =>
      (walk state.element state.held.length node).map fun list =>
        { state with tree := rest, held := state.held.filter (· ∉ list) }
  | .write addr value =>
    if addr ∉ state.held then some { state with element := update state.element addr value }
    else none

def machine [DecidableEq Addr] : Machine (State Fiber Addr) (Action Fiber Addr) where
  initial state := state.tree = .leaf ∧ state.held = []
  step := step

variable {element : Addr → Element Fiber Addr}

theorem walk_of_chain
    (chain : Chain some (fun addr => (element addr).next) (element node).next list none)
    (enough : list.length < fuel) : walk element fuel node = some (node :: list) := by
  induction list generalizing node fuel with
  | nil =>
    obtain ⟨fuel, rfl⟩ := Nat.exists_eq_add_of_lt enough
    simp [walk, Chain.nil_inv chain]
  | cons first list ih =>
    obtain ⟨leads, chain⟩ := Chain.cons_inv chain
    obtain ⟨more, rfl⟩ := Nat.exists_eq_add_of_lt enough
    have later : walk element (list.length + 1 + more) first = some (first :: list) :=
      ih chain (by omega)
    simp [walk, leads, later]

theorem members_sorted (forest : Forest element tree behind) :
    (tree.members behind).Pairwise fun early late =>
      (element early).wakeTime ≤ (element late).wakeTime := by
  have same : ∀ top ∈ tree.tops, ∀ addr ∈ top :: behind top,
      (element addr).wakeTime = (element top).wakeTime := by
    intro top member addr within
    rcases List.mem_cons.mp within with rfl | waits
    · rfl
    · exact forest.alike top member addr waits
  refine List.pairwise_flatMap.mpr ⟨fun top member => ?_, ?_⟩
  · refine List.pairwise_of_forall_mem_list fun early first late second => ?_
    exact Nat.le_of_eq
      ((same top member early first).trans (same top member late second).symm)
  · refine forest.sorted.imp_of_mem fun above beside before early first late second => ?_
    rw [same _ above early first, same _ beside late second]
    exact Nat.le_of_lt before

theorem drain_of_forest (forest : Forest element tree behind) (wakeTime : Nat)
    (enough : (tree.members behind).length < fuel) :
    ∃ yielded rest, drain element wakeTime fuel tree = some (yielded, rest) ∧
      tree.members behind = yielded ++ rest.members behind ∧ Forest element rest behind ∧
      (∀ addr ∈ yielded, (element addr).wakeTime < wakeTime) ∧
      ∀ addr ∈ rest.members behind, wakeTime ≤ (element addr).wakeTime := by
  induction fuel generalizing tree with
  | zero => cases enough
  | succ fuel ih =>
    cases removed : waiterRemoveLessThan element wakeTime tree with
    | none =>
      refine ⟨[], tree, by simp [drain, removed], rfl, forest, nofun, forest.late removed⟩
    | some found =>
      obtain ⟨node, rest⟩ := found
      obtain ⟨forest, members, linked, early⟩ := forest.remove removed
      rw [members, List.length_append, List.length_cons] at enough
      obtain ⟨later, last, drained, split, forest, before, late⟩ := ih forest (by omega)
      have walked := walk_of_chain linked (show (behind node).length < fuel by omega)
      refine ⟨(node :: behind node) ++ later, last, by simp [drain, removed, walked, drained],
        by rw [members, split, List.append_assoc], forest, ?_, late⟩
      intro addr member
      exact (List.mem_append.mp member).elim (early addr) (before addr)

/-- The fuel is enough for the list that a removal returns. -/
theorem walk_of_remove (forest : Forest element tree behind)
    (perm : (tree.members behind).Perm held)
    (removed : waiterRemoveLessThan element wakeTime tree = some (node, rest)) :
    walk element held.length node = some (node :: behind node) := by
  obtain ⟨_, members, linked, _⟩ := forest.remove removed
  have length := perm.length_eq
  rw [members, List.length_append, List.length_cons] at length
  exact walk_of_chain linked (by omega)

variable [DecidableEq Addr] {action : Action Fiber Addr}

/-- The tree holds what was inserted and is not removed. -/
def Sound (state : State Fiber Addr) : Prop :=
  ∃ behind, Forest state.element state.tree behind ∧ (state.tree.members behind).Perm state.held

theorem write_forest (forest : Forest element tree behind)
    (perm : (tree.members behind).Perm held) (outside : node ∉ held)
    (value : Element Fiber Addr) : Forest (update element node value) tree behind := by
  refine forest.congr fun addr member => ?_
  rw [update_of_ne]
  · exact ⟨rfl, rfl⟩
  · intro same
    exact outside (same ▸ perm.mem_iff.mp member)

theorem step_remove_isSome {state : State Fiber Addr} (sound : Sound state) (wakeTime : Nat) :
    (step state (.remove wakeTime)).isSome := by
  obtain ⟨behind, forest, perm⟩ := sound
  cases removed : waiterRemoveLessThan state.element wakeTime state.tree with
  | none => simp [step, removed]
  | some found => simp [step, removed, walk_of_remove forest perm removed]

theorem step_sound (sound : Sound state) (stepped : step state action = some after) :
    Sound after := by
  obtain ⟨behind, forest, perm⟩ := sound
  cases action with
  | insert node wakeTime =>
    obtain ⟨outside, ⟨⟩⟩ := Option.ite_none_right_eq_some.mp stepped
    obtain ⟨later, inserted, grown⟩ :=
      (write_forest forest perm outside ⟨wakeTime, none, none⟩).insert
        (fun member => outside (perm.mem_iff.mp member)) (by simp)
    exact ⟨later, inserted, grown.trans (perm.cons node)⟩
  | remove wakeTime =>
    rw [step] at stepped
    cases removed : waiterRemoveLessThan state.element wakeTime state.tree with
    | none =>
      rw [removed] at stepped
      cases stepped
      exact ⟨behind, forest, perm⟩
    | some found =>
      obtain ⟨node, rest⟩ := found
      obtain ⟨left, members, _, _⟩ := forest.remove removed
      rw [removed] at stepped
      simp only [walk_of_remove forest perm removed, Option.map_some] at stepped
      cases stepped
      refine ⟨behind, left, ?_⟩
      -- what is filtered out is the list in front of the members of the rest
      have distinct := forest.distinct
      rw [members, List.nodup_append] at distinct
      refine List.Perm.trans ?_ (perm.filter _)
      have front : (node :: behind node).filter (· ∉ node :: behind node) = [] :=
        List.filter_eq_nil_iff.mpr fun addr member => by simp only [member, not_true, decide_false,
          Bool.false_eq_true, not_false_eq_true]
      have back : (rest.members behind).filter (· ∉ node :: behind node) = rest.members behind :=
        List.filter_eq_self.mpr fun addr member =>
          decide_eq_true fun listed => distinct.2.2 addr listed addr member rfl
      rw [members, List.filter_append, front, back, List.nil_append]
  | write addr value =>
    obtain ⟨outside, ⟨⟩⟩ := Option.ite_none_right_eq_some.mp stepped
    exact ⟨behind, write_forest forest perm outside value, perm⟩

/-- After any calls the tree is sorted, with the elements of one wake time in one
list, and holds what was inserted and is not removed.  Every removal returns.  Removing
until nothing is left to remove yields those that are due, each once and in the order of
their wake times, and leaves the others. -/
theorem drain_yields_due {history : List (State Fiber Addr × Action Fiber Addr)}
    (run : machine.Run history state) :
    ∃ behind, Forest state.element state.tree behind ∧ (state.tree.members behind).Perm state.held ∧
      (∀ wakeTime, (step state (.remove wakeTime)).isSome) ∧
      ∀ wakeTime fuel, state.held.length < fuel → ∃ yielded rest,
        drain state.element wakeTime fuel state.tree = some (yielded, rest) ∧ yielded.Nodup ∧
        (∀ addr, addr ∈ yielded ↔ addr ∈ state.held ∧ (state.element addr).wakeTime < wakeTime) ∧
        yielded.Pairwise (fun early late =>
          (state.element early).wakeTime ≤ (state.element late).wakeTime) ∧
        Forest state.element rest behind ∧
        ∀ addr, addr ∈ rest.members behind ↔
          addr ∈ state.held ∧ wakeTime ≤ (state.element addr).wakeTime := by
  have sound : Sound state := by
    refine run.invariant (fun _ => Sound) ?_ fun _ _ _ _ sound => step_sound sound
    intro state ⟨leaf, empty⟩
    refine ⟨fun _ => [], leaf ▸ .empty _, ?_⟩
    rw [leaf, empty]
    exact .refl _
  have ⟨behind, forest, perm⟩ := sound
  refine ⟨behind, forest, perm, step_remove_isSome sound, fun wakeTime fuel enough => ?_⟩
  obtain ⟨yielded, rest, drained, split, left, early, late⟩ :=
    drain_of_forest forest wakeTime (perm.length_eq ▸ enough)
  have held : ∀ addr, addr ∈ state.held ↔ addr ∈ yielded ∨ addr ∈ rest.members behind := by
    intro addr
    rw [← perm.mem_iff, split, List.mem_append]
  have distinct := forest.distinct
  have sorted := members_sorted forest
  rw [split] at distinct sorted
  refine ⟨yielded, rest, drained, (List.nodup_append.mp distinct).1, fun addr => ?_,
    (List.pairwise_append.mp sorted).1, left, fun addr => ?_⟩
  · refine ⟨fun member => ⟨(held addr).mpr (.inl member), early addr member⟩, fun due => ?_⟩
    exact ((held addr).mp due.1).resolve_right fun member =>
      Nat.not_lt.mpr (late addr member) due.2
  · refine ⟨fun member => ⟨(held addr).mpr (.inr member), late addr member⟩, fun kept => ?_⟩
    exact ((held addr).mp kept.1).resolve_left fun member =>
      Nat.not_lt.mpr kept.2 (early addr member)

end Operations

/-- Two elements of one wake time, an earlier and a later one; the earliest is removed. -/
def calls : List (Action Nat Nat) :=
  [.insert 0 7, .insert 1 3, .insert 2 7, .insert 3 9, .remove 4, .insert 4 5]

theorem drain_yields_due_calls : ∃ history, ∃ state : State Nat Nat, machine.Run history state ∧
    state.held = [4, 3, 2, 0] ∧ ∃ yielded rest,
      drain state.element 8 5 state.tree = some (yielded, rest) ∧ yielded = [4, 0, 2] ∧
      yielded.Pairwise fun early late =>
        (state.element early).wakeTime ≤ (state.element late).wakeTime := by
  obtain ⟨state, run, checked⟩ := Machine.run_of_check
    (show machine.initial (⟨fun _ => ⟨0, none, none⟩, .leaf, []⟩ : State Nat Nat) from ⟨rfl, rfl⟩)
    (show (machine.exec _ calls).any (fun state => decide (state.held = [4, 3, 2, 0] ∧
      (drain state.element 8 5 state.tree).map Prod.fst = some [4, 0, 2])) by
      decide +kernel)
  obtain ⟨held, first⟩ := of_decide_eq_true checked
  obtain ⟨_, _, _, _, drains⟩ := drain_yields_due run
  obtain ⟨yielded, rest, drained, _, _, sorted, _⟩ := drains 8 5 (by simp [held])
  rw [drained] at first
  exact ⟨_, state, run, held, yielded, rest, drained, Option.some.inj first, sorted⟩

end LibFiber.Sleep.Queue
