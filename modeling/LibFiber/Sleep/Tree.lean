import LibFiber.Data.VersionedList
import Mathlib.Data.List.Nodup
import Mathlib.Data.List.Pairwise

namespace LibFiber.Sleep

open Data Function

/-! The tree of sleepers: a search tree of `waiter_el_t` by wake time, each with a
list of the elements of the same wake time behind it.

The elements lie on the stacks of the sleepers.  Their `left` and `right` fields are
used only while the sleepers are in the tree, and are its branches here.
-/

/-- `waiter_el_t` -/
structure Element (Fiber Addr : Type) where
  wakeTime : Nat
  waiter : Option Fiber
  next : Option Addr
deriving DecidableEq, Repr

inductive Tree (Addr : Type) where
  | leaf
  | node (top : Addr) (left right : Tree Addr)
deriving DecidableEq, Repr

section Operations

variable {Fiber Addr : Type}

/-- `node->next = (*tree)->next; (*tree)->next = node;` -/
def chain [DecidableEq Addr] (element : Addr → Element Fiber Addr) (top node : Addr) :
    Addr → Element Fiber Addr :=
  let linked := update element node { element node with next := (element top).next }
  update linked top { linked top with next := some node }

def waiterInsert [DecidableEq Addr] (element : Addr → Element Fiber Addr) (node : Addr) :
    Tree Addr → Tree Addr × (Addr → Element Fiber Addr)
  | .leaf => (.node node .leaf .leaf, element)
  | .node top left right =>
    if (element node).wakeTime < (element top).wakeTime then
      let inserted := waiterInsert element node left
      (.node top inserted.1 right, inserted.2)
    else if (element node).wakeTime = (element top).wakeTime then
      (.node top left right, chain element top node)
    else
      let inserted := waiterInsert element node right
      (.node top left inserted.1, inserted.2)

/-- The element that is taken out, and the tree that is left. -/
def waiterRemoveLessThan (element : Addr → Element Fiber Addr) (wakeTime : Nat) :
    Tree Addr → Option (Addr × Tree Addr)
  | .leaf => none
  | .node top .leaf right =>
    if wakeTime > (element top).wakeTime then some (top, right) else none
  | .node top (.node inner left middle) right =>
    (waiterRemoveLessThan element wakeTime (.node inner left middle)).map fun removed =>
      (removed.1, .node top removed.2 right)

/-- The elements of the tree itself, in the order of their wake times. -/
def Tree.tops : Tree Addr → List Addr
  | .leaf => []
  | .node top left right => left.tops ++ top :: right.tops

/-- The elements of the tree, each with the list behind it. -/
def Tree.members (behind : Addr → List Addr) (tree : Tree Addr) : List Addr :=
  tree.tops.flatMap fun top => top :: behind top

variable {tree : Tree Addr}

/-- The wake times of the tree go up from left to right. -/
def Tree.Sorted (element : Addr → Element Fiber Addr) (tree : Tree Addr) : Prop :=
  tree.tops.Pairwise fun early late => (element early).wakeTime < (element late).wakeTime

theorem Tree.sorted_node (sorted : Tree.Sorted element (.node top left right)) :
    left.Sorted element ∧ right.Sorted element ∧
      (∀ early ∈ left.tops, (element early).wakeTime < (element top).wakeTime) ∧
      ∀ late ∈ right.tops, (element top).wakeTime < (element late).wakeTime := by
  obtain ⟨before, behind, across⟩ := List.pairwise_append.mp sorted
  obtain ⟨later, after⟩ := List.pairwise_cons.mp behind
  exact ⟨before, after, fun early member => across early member top List.mem_cons_self, later⟩

theorem tops_of_remove (removed : waiterRemoveLessThan element wakeTime tree = some (node, rest)) :
    tree.tops = node :: rest.tops ∧ (element node).wakeTime < wakeTime := by
  induction tree generalizing rest with
  | leaf => cases removed
  | node top left right leftIH rightIH =>
    cases left with
    | leaf =>
      simp only [waiterRemoveLessThan, Option.ite_none_right_eq_some, Option.some.injEq,
        Prod.mk.injEq] at removed
      obtain ⟨early, rfl, rfl⟩ := removed
      exact ⟨rfl, early⟩
    | node inner before middle =>
      obtain ⟨⟨_, left⟩, below, same⟩ := Option.map_eq_some_iff.mp removed
      obtain ⟨rfl, rfl⟩ := Prod.mk.inj same
      obtain ⟨tops, early⟩ := leftIH below
      refine ⟨?_, early⟩
      rw [Tree.tops, tops]
      rfl

theorem late_of_remove (sorted : tree.Sorted element)
    (kept : waiterRemoveLessThan element wakeTime tree = none) :
    ∀ node ∈ tree.tops, wakeTime ≤ (element node).wakeTime := by
  induction tree with
  | leaf => exact fun node member => nomatch member
  | node top left right leftIH rightIH =>
    obtain ⟨before, _, early, late⟩ := Tree.sorted_node sorted
    have first : wakeTime ≤ (element top).wakeTime ∧
        ∀ node ∈ left.tops, wakeTime ≤ (element node).wakeTime := by
      cases left with
      | leaf =>
        simp only [waiterRemoveLessThan, ite_eq_right_iff, reduceCtorEq, imp_false] at kept
        exact ⟨Nat.le_of_not_lt kept, fun node member => nomatch member⟩
      | node inner deeper middle =>
        have below := leftIH before (Option.map_eq_none_iff.mp kept)
        have member : inner ∈ (Tree.node inner deeper middle).tops := by simp [Tree.tops]
        exact ⟨Nat.le_of_lt (Nat.lt_of_le_of_lt (below inner member) (early inner member)), below⟩
    intro node member
    rcases List.mem_append.mp member with inLeft | inRight
    · exact first.2 node inLeft
    · rcases List.mem_cons.mp inRight with rfl | inRight
      · exact first.1
      · exact Nat.le_trans first.1 (Nat.le_of_lt (late node inRight))

variable [DecidableEq Addr]

theorem waiterInsert_cases (sorted : tree.Sorted element) :
    (∃ top ∈ tree.tops, (element top).wakeTime = (element node).wakeTime ∧
      waiterInsert element node tree = (tree, chain element top node)) ∨
    (∃ before after, tree.tops = before ++ after ∧
      (∀ early ∈ before, (element early).wakeTime < (element node).wakeTime) ∧
      (∀ late ∈ after, (element node).wakeTime < (element late).wakeTime) ∧
      (waiterInsert element node tree).1.tops = before ++ node :: after ∧
      (waiterInsert element node tree).2 = element) := by
  induction tree with
  | leaf => exact .inr ⟨[], [], rfl, nofun, nofun, rfl, rfl⟩
  | node top left right leftIH rightIH =>
    obtain ⟨inLeft, inRight, early, late⟩ := Tree.sorted_node sorted
    rw [waiterInsert]
    split
    · rename_i less
      rcases leftIH inLeft with ⟨same, member, equal, result⟩ |
        ⟨before, after, tops, lower, upper, inserted, unchanged⟩
      · refine .inl ⟨same, List.mem_append_left _ member, equal, ?_⟩
        rw [result]
      · refine .inr ⟨before, after ++ top :: right.tops, ?_, lower, ?_, ?_, unchanged⟩
        · rw [Tree.tops, tops, List.append_assoc]
        · intro other member
          rcases List.mem_append.mp member with here | there
          · exact upper other here
          · rcases List.mem_cons.mp there with rfl | there
            · exact less
            · exact Nat.lt_trans less (late other there)
        · simp only [Tree.tops, inserted, List.append_assoc, List.cons_append]
    · split
      · rename_i equal
        exact .inl ⟨top, by simp [Tree.tops], equal.symm, rfl⟩
      · have more : (element top).wakeTime < (element node).wakeTime := by omega
        rcases rightIH inRight with ⟨same, member, equal, result⟩ |
          ⟨before, after, tops, lower, upper, inserted, unchanged⟩
        · refine .inl ⟨same, ?_, equal, ?_⟩
          · exact List.mem_append_right _ (List.mem_cons_of_mem _ member)
          · rw [result]
        · refine .inr ⟨left.tops ++ top :: before, after, ?_, ?_, upper, ?_, unchanged⟩
          · rw [Tree.tops, tops, List.append_assoc, List.cons_append]
          · intro other member
            rcases List.mem_append.mp member with there | here
            · exact Nat.lt_trans (early other there) more
            · rcases List.mem_cons.mp here with rfl | here
              · exact more
              · exact lower other here
          · simp only [Tree.tops, inserted, List.append_assoc, List.cons_append]

end Operations

section Forest

variable {Fiber Addr : Type} {other : Addr → Element Fiber Addr} {tree : Tree Addr}
variable {node : Addr}

/-- The tree with the list behind each of its elements. -/
structure Forest (element : Addr → Element Fiber Addr) (tree : Tree Addr)
    (behind : Addr → List Addr) : Prop where
  sorted : tree.Sorted element
  linked : ∀ top ∈ tree.tops,
    Chain some (fun addr => (element addr).next) (element top).next (behind top) none
  alike : ∀ top ∈ tree.tops, ∀ addr ∈ behind top, (element addr).wakeTime = (element top).wakeTime
  distinct : (tree.members behind).Nodup

theorem Tree.top_mem (behind : Addr → List Addr) (member : top ∈ tree.tops) :
    top ∈ tree.members behind :=
  List.mem_flatMap.mpr ⟨top, member, List.mem_cons_self⟩

theorem Tree.behind_mem (member : top ∈ tree.tops) (waits : node ∈ behind top) :
    node ∈ tree.members behind :=
  List.mem_flatMap.mpr ⟨top, member, List.mem_cons_of_mem _ waits⟩

theorem Forest.empty (behind : Addr → List Addr) : Forest element .leaf behind where
  sorted := List.Pairwise.nil
  linked := nofun
  alike := nofun
  distinct := List.nodup_nil

theorem Forest.congr (forest : Forest element tree behind)
    (same : ∀ addr ∈ tree.members behind, (other addr).wakeTime = (element addr).wakeTime ∧
      (other addr).next = (element addr).next) :
    Forest other tree behind where
  sorted := by
    refine forest.sorted.imp_of_mem fun early late before => ?_
    rw [(same _ (Tree.top_mem behind early)).1, (same _ (Tree.top_mem behind late)).1]
    exact before
  linked top member := by
    rw [(same _ (Tree.top_mem behind member)).2]
    exact (forest.linked top member).congr fun addr waits =>
      (same addr (Tree.behind_mem member waits)).2
  alike top member addr waits := by
    rw [(same _ (Tree.behind_mem member waits)).1, (same _ (Tree.top_mem behind member)).1]
    exact forest.alike top member addr waits
  distinct := forest.distinct

theorem Forest.remove (forest : Forest element tree behind)
    (removed : waiterRemoveLessThan element wakeTime tree = some (node, rest)) :
    Forest element rest behind ∧
      tree.members behind = (node :: behind node) ++ rest.members behind ∧
      Chain some (fun addr => (element addr).next) (element node).next (behind node) none ∧
      ∀ addr ∈ node :: behind node, (element addr).wakeTime < wakeTime := by
  obtain ⟨tops, early⟩ := tops_of_remove removed
  have members : tree.members behind = (node :: behind node) ++ rest.members behind := by
    rw [Tree.members, tops, List.flatMap_cons]
    rfl
  have first : node ∈ tree.tops := by
    rw [tops]
    exact List.mem_cons_self
  have later : ∀ top ∈ rest.tops, top ∈ tree.tops := by
    intro top member
    rw [tops]
    exact List.mem_cons_of_mem _ member
  refine ⟨⟨?_, ?_, ?_, ?_⟩, members, forest.linked node first, ?_⟩
  · have sorted := forest.sorted
    rw [Tree.Sorted, tops] at sorted
    exact (List.pairwise_cons.mp sorted).2
  · exact fun top member => forest.linked top (later top member)
  · exact fun top member => forest.alike top (later top member)
  · have distinct := forest.distinct
    rw [members] at distinct
    exact (List.nodup_append.mp distinct).2.1
  · intro addr member
    rcases List.mem_cons.mp member with rfl | waits
    · exact early
    · rw [forest.alike node first addr waits]
      exact early

theorem Forest.late (forest : Forest element tree behind)
    (kept : waiterRemoveLessThan element wakeTime tree = none) :
    ∀ addr ∈ tree.members behind, wakeTime ≤ (element addr).wakeTime := by
  have late := late_of_remove forest.sorted kept
  intro addr member
  obtain ⟨top, above, within⟩ := List.mem_flatMap.mp member
  rcases List.mem_cons.mp within with rfl | waits
  · exact late addr above
  · rw [forest.alike top above addr waits]
    exact late top above

theorem Forest.nodup_tops (forest : Forest element tree behind) : tree.tops.Nodup := by
  refine List.Pairwise.imp (fun {early late} before => ?_) forest.sorted
  rintro rfl
  exact Nat.lt_irrefl _ before

variable [DecidableEq Addr]

theorem members_update {tops : List Addr} {list : List Addr} (outside : node ∉ tops) :
    (tops.flatMap fun top => top :: update behind node list top) =
      tops.flatMap fun top => top :: behind top := by
  refine List.flatMap_congr fun top member => ?_
  rw [update_of_ne]
  rintro rfl
  exact outside member

omit [DecidableEq Addr] in
theorem Forest.apart (forest : Forest element tree behind) {rival : Addr}
    (above : top ∈ tree.tops) (beside : rival ∈ tree.tops) (different : rival ≠ top) :
    List.Disjoint (rival :: behind rival) (top :: behind top) := by
  have pairs := (List.nodup_flatMap.mp forest.distinct).2
  have symmetric : Std.Symm (List.Disjoint on fun top : Addr => top :: behind top) :=
    ⟨fun _ _ disjoint _ left right => disjoint right left⟩
  exact pairs.forall beside above different

theorem chain_fields (addr : Addr) :
    (chain element top node addr).wakeTime = (element addr).wakeTime ∧
      (chain element top node addr).waiter = (element addr).waiter := by
  unfold chain
  by_cases atTop : addr = top
  · subst addr
    rw [update_self]
    by_cases atNode : top = node
    · subst top
      simp
    · simp [update_of_ne atNode]
  · rw [update_of_ne atTop]
    by_cases atNode : addr = node
    · subst addr
      simp
    · simp [update_of_ne atNode]

theorem chain_next_top : (chain element top node top).next = some node := by
  simp [chain]

theorem chain_next_node (different : node ≠ top) :
    (chain element top node node).next = (element top).next := by
  simp [chain, update_of_ne different]

theorem chain_next_of_ne (notTop : addr ≠ top) (notNode : addr ≠ node) :
    (chain element top node addr).next = (element addr).next := by
  simp [chain, update_of_ne notTop, update_of_ne notNode]

theorem waiterInsert_fields (addr : Addr) :
    ((waiterInsert element node tree).2 addr).wakeTime = (element addr).wakeTime ∧
      ((waiterInsert element node tree).2 addr).waiter = (element addr).waiter := by
  induction tree with
  | leaf => exact ⟨rfl, rfl⟩
  | node top left right leftIH rightIH =>
    rw [waiterInsert]
    split
    · exact leftIH
    · split
      · exact chain_fields addr
      · exact rightIH

theorem waiterInsert_next (sorted : tree.Sorted element) (outside : addr ∉ tree.tops)
    (different : addr ≠ node) :
    ((waiterInsert element node tree).2 addr).next = (element addr).next := by
  rcases waiterInsert_cases sorted with ⟨top, above, _, result⟩ | ⟨_, _, _, _, _, _, unchanged⟩
  · rw [result]
    refine chain_next_of_ne ?_ different
    rintro rfl
    exact outside above
  · rw [unchanged]

theorem members_chain (once : tree.tops.Nodup) (above : top ∈ tree.tops) :
    (tree.members (update behind top (node :: behind top))).Perm (node :: tree.members behind) := by
  obtain ⟨before, after, split⟩ := List.append_of_mem above
  rw [split, List.nodup_middle, List.nodup_cons, List.mem_append, not_or] at once
  simp only [Tree.members, split, List.flatMap_append, List.flatMap_cons,
    members_update once.1.1, members_update once.1.2, update_self]
  exact (List.Perm.append_left _ ((List.Perm.swap _ _ _).append_right _)).trans List.perm_middle

theorem Forest.chain (forest : Forest element tree behind) (fresh : node ∉ tree.members behind)
    (above : top ∈ tree.tops) (equal : (element top).wakeTime = (element node).wakeTime) :
    Forest (chain element top node) tree (update behind top (node :: behind top)) := by
  have notNode : ∀ addr ∈ tree.members behind, addr ≠ node := by
    rintro addr member rfl
    exact fresh member
  refine ⟨?_, ?_, ?_, ?_⟩
  · refine List.Pairwise.imp (fun {early late} before => ?_) forest.sorted
    rw [(chain_fields early).1, (chain_fields late).1]
    exact before
  · intro rival member
    by_cases same : rival = top
    · subst rival
      have once := (List.nodup_flatMap.mp forest.distinct).1 top member
      rw [update_self, chain_next_top]
      refine .cons ?_
      rw [chain_next_node (notNode top (Tree.top_mem behind member)).symm]
      refine (forest.linked top member).congr fun addr waits =>
        chain_next_of_ne ?_ (notNode addr (Tree.behind_mem member waits))
      rintro rfl
      exact (List.nodup_cons.mp once).1 waits
    · have apart := forest.apart above member same
      rw [update_of_ne same, chain_next_of_ne same (notNode rival (Tree.top_mem behind member))]
      refine (forest.linked rival member).congr fun addr waits =>
        chain_next_of_ne ?_ (notNode addr (Tree.behind_mem member waits))
      rintro rfl
      exact apart (List.mem_cons_of_mem _ waits) List.mem_cons_self
  · intro rival member addr waits
    rw [(chain_fields addr).1, (chain_fields rival).1]
    by_cases same : rival = top
    · subst rival
      rw [update_self] at waits
      rcases List.mem_cons.mp waits with rfl | waits
      · exact equal.symm
      · exact forest.alike top member addr waits
    · rw [update_of_ne same] at waits
      exact forest.alike rival member addr waits
  · exact (members_chain forest.nodup_tops above).nodup_iff.mpr
      (List.nodup_cons.mpr ⟨fresh, forest.distinct⟩)

theorem Forest.place {before after : List Addr} (forest : Forest element tree behind)
    (fresh : node ∉ tree.members behind) (blank : (element node).next = none)
    (tops : tree.tops = before ++ after)
    (lower : ∀ early ∈ before, (element early).wakeTime < (element node).wakeTime)
    (upper : ∀ late ∈ after, (element node).wakeTime < (element late).wakeTime)
    (inserted : rest.tops = before ++ node :: after) :
    Forest element rest (update behind node []) ∧
      (rest.members (update behind node [])).Perm (node :: tree.members behind) := by
  have outside : node ∉ tree.tops := fun member => fresh (Tree.top_mem behind member)
  have split : node ∉ before ∧ node ∉ after := by
    rwa [tops, List.mem_append, not_or] at outside
  have elsewhere : ∀ top ∈ rest.tops, top = node ∨ top ∈ tree.tops := by
    intro top member
    rw [inserted, List.mem_append, List.mem_cons] at member
    rw [tops, List.mem_append]
    tauto
  have perm : (rest.members (update behind node [])).Perm (node :: tree.members behind) := by
    simp only [Tree.members, inserted, tops, List.flatMap_append, List.flatMap_cons,
      members_update split.1, members_update split.2, update_self]
    exact List.perm_middle
  refine ⟨⟨?_, ?_, ?_, ?_⟩, perm⟩
  · have sorted := forest.sorted
    rw [Tree.Sorted, tops, List.pairwise_append] at sorted
    rw [Tree.Sorted, inserted, List.pairwise_append, List.pairwise_cons]
    refine ⟨sorted.1, ⟨upper, sorted.2.1⟩, fun early member late => ?_⟩
    intro within
    rcases List.mem_cons.mp within with rfl | behindIt
    · exact lower early member
    · exact sorted.2.2 early member late behindIt
  · intro top member
    by_cases same : top = node
    · subst top
      rw [update_self, blank]
      exact .nil _
    · rw [update_of_ne same]
      exact forest.linked top ((elsewhere top member).resolve_left same)
  · intro top member addr waits
    by_cases same : top = node
    · subst top
      rw [update_self] at waits
      cases waits
    · rw [update_of_ne same] at waits
      exact forest.alike top ((elsewhere top member).resolve_left same) addr waits
  · exact perm.nodup_iff.mpr (List.nodup_cons.mpr ⟨fresh, forest.distinct⟩)

theorem Forest.insert (forest : Forest element tree behind) (fresh : node ∉ tree.members behind)
    (blank : (element node).next = none) :
    ∃ later, Forest (waiterInsert element node tree).2 (waiterInsert element node tree).1 later ∧
      ((waiterInsert element node tree).1.members later).Perm (node :: tree.members behind) := by
  rcases waiterInsert_cases forest.sorted with ⟨top, above, equal, result⟩ |
    ⟨before, after, tops, lower, upper, inserted, unchanged⟩
  · rw [result]
    exact ⟨_, forest.chain fresh above equal, members_chain forest.nodup_tops above⟩
  · rw [unchanged]
    exact ⟨_, forest.place fresh blank tops lower upper inserted⟩

end Forest

end LibFiber.Sleep
