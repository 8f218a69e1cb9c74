import LibFiber.Data.VersionedList

namespace LibFiber.Data

open Function

/-! What a reader of a linked queue has seen, before its compare-and-swap of the
versioned head.

It reads the version, the head, the node that the head leads to and that node's
data, in this order.  The head may be taken away, and its memory used for anything,
between any two of these reads; but the version has advanced then.
-/

inductive Snapshot (N : Type u) (V : Type v) where
  | counted (counter : Nat)
  | headed (counter : Nat) (head : N)
  | followed (counter : Nat) (head next : N)
  | loaded (counter : Nat) (head next : N) (data : V)
deriving DecidableEq, Repr

namespace Snapshot

variable {N : Type u} {V : Type v}
variable {snapshot : Snapshot N V}

/-- The reader is right about what it has seen while the version stays. -/
def Holds (word : Versioned N) (next : N → Option N) (data : N → V) : Snapshot N V → Prop
  | counted counter => word.Seen counter True
  | headed counter head => word.Seen counter (word.head = head)
  | followed counter head node => word.Seen counter (word.head = head ∧ next head = some node)
  | loaded counter head node value =>
    word.Seen counter (word.head = head ∧ next head = some node ∧ data node = value)

theorem Holds.count (word : Versioned N) (next : N → Option N) (data : N → V) :
    Holds word next data (counted word.counter) :=
  ⟨Nat.le_refl _, fun _ => trivial⟩

theorem Holds.head (holds : Holds word next data (counted counter)) :
    Holds word next data (headed counter word.head) :=
  ⟨holds.1, fun _ => rfl⟩

theorem Holds.follow (holds : Holds word next data (headed counter front))
    (leads : next front = some node) : Holds word next data (followed counter front node) :=
  ⟨holds.1, fun same => ⟨holds.2 same, leads⟩⟩

theorem Holds.load (holds : Holds word next data (followed counter front node)) :
    Holds word next data (loaded counter front node (data node)) :=
  ⟨holds.1, fun same => ⟨(holds.2 same).1, (holds.2 same).2, rfl⟩⟩

theorem Holds.congr (holds : Holds word next data snapshot)
    (same : ∀ node, next word.head = some node →
      other word.head = some node ∧ later node = data node) :
    Holds word other later snapshot := by
  cases snapshot with
  | counted counter | headed counter head => exact holds
  | followed counter head node =>
    refine Versioned.Seen.weaken holds fun ⟨first, leads⟩ => ⟨first, ?_⟩
    subst first
    exact (same node leads).1
  | loaded counter head node value =>
    refine Versioned.Seen.weaken holds fun ⟨first, leads, found⟩ => ⟨first, ?_⟩
    subst first
    obtain ⟨still, unchanged⟩ := same node leads
    exact ⟨still, unchanged.trans found⟩

theorem Holds.stale (holds : Holds word next data snapshot)
    (advanced : word.counter < after.counter) : Holds after other later snapshot := by
  cases snapshot with
  | counted | headed | followed | loaded => exact Versioned.Seen.stale holds advanced

end Snapshot

end LibFiber.Data
