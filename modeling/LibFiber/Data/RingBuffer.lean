import LibFiber.Data.CircularArray

namespace LibFiber.Data

open Function

/-! A bounded buffer whose writers publish in two steps and whose one reader
takes from the front.

A writer claims the position `high` by advancing it and stores its value there
later, so a position below `high` may be claimed and not written yet.  The
reader clears the slot at `low` before it advances `low`.
-/

structure RingBuffer (α : Type u) where
  high : Int
  low : Int
  buffer : CircularArray α

namespace RingBuffer

variable {α : Type u} {W : Type v}

def create (logSize : Nat) : RingBuffer α := ⟨0, 0, .create logSize⟩

def size (ring : RingBuffer α) : Int := ring.buffer.size

def get (ring : RingBuffer α) (position : Int) : Option α := ring.buffer.get position

def claim (ring : RingBuffer α) : RingBuffer α := { ring with high := ring.high + 1 }

def write (ring : RingBuffer α) (position : Int) (value : α) : RingBuffer α :=
  { ring with buffer := ring.buffer.put position (some value) }

def clear (ring : RingBuffer α) : RingBuffer α :=
  { ring with buffer := ring.buffer.put ring.low none }

def advance (ring : RingBuffer α) : RingBuffer α := { ring with low := ring.low + 1 }

/-- What the reader would take. -/
def front (ring : RingBuffer α) : Option α :=
  if ring.low < ring.high then ring.get ring.low else none

@[simp] theorem size_clear (ring : RingBuffer α) : ring.clear.size = ring.size := rfl

@[simp] theorem size_advance (ring : RingBuffer α) : ring.advance.size = ring.size := rfl

theorem size_pos (ring : RingBuffer α) : 0 < ring.size := ring.buffer.size_pos

@[simp] theorem get_clear_low (ring : RingBuffer α) : ring.clear.get ring.low = none :=
  CircularArray.get_put_self ring.buffer ring.low none

theorem get_write_of_ne {ring : RingBuffer α} {other : Int} (value : α)
    (different : other ≠ position) (below : other - position < ring.size)
    (above : position - other < ring.size) :
    (ring.write position value).get other = ring.get other :=
  CircularArray.get_put_of_ne (some value) different below above

theorem get_clear_of_ne {ring : RingBuffer α} {other : Int} (different : other ≠ ring.low)
    (below : other - ring.low < ring.size) (above : ring.low - other < ring.size) :
    ring.clear.get other = ring.get other :=
  CircularArray.get_put_of_ne none different below above

theorem get_add_size (ring : RingBuffer α) (position : Int) :
    ring.get (position + ring.size) = ring.get position := by
  simp [get, CircularArray.get, CircularArray.slot, size]

/-- `writing` gives the position that a writer has claimed and not written yet;
`hollow` says that the reader has cleared the slot at `low` and not advanced. -/
structure Sound (ring : RingBuffer α) (writing : W → Option Int) (hollow : Bool) : Prop where
  ordered : ring.low ≤ ring.high
  bounded : ring.high ≤ ring.low + ring.size
  pending : ∀ writer position, writing writer = some position →
    ring.low ≤ position ∧ position < ring.high ∧ ring.get position = none
  sole : ∀ writer other position, writing writer = some position →
    writing other = some position → writer = other
  vacant : ∀ position, ring.high ≤ position → position < ring.low + ring.size →
    ring.get position = none
  cleared : hollow →
    ring.low < ring.high ∧ ring.get ring.low = none ∧ ∀ writer, writing writer ≠ some ring.low

variable {ring : RingBuffer α} {writer : W}

theorem create_sound (logSize : Nat) (idle : ∀ writer, writing writer = none) :
    (create logSize : RingBuffer α).Sound writing false where
  ordered := Int.le_refl 0
  bounded := by
    have positive := (create logSize : RingBuffer α).size_pos
    simp only [create] at positive ⊢
    omega
  pending writer position claimed := by simp [idle] at claimed
  sole writer other position claimed := by simp [idle] at claimed
  vacant position _ _ := rfl
  cleared := by simp

theorem Sound.front_claim (sound : ring.Sound writing hollow)
    (offered : ring.claim.front.isSome) : ring.front.isSome := by
  have ordered := sound.ordered
  have positive := ring.size_pos
  by_cases empty : ring.low = ring.high
  · have vacant := sound.vacant ring.low (by omega) (by omega)
    have nothing : ring.claim.front = none := by
      simp only [front, claim, get] at vacant ⊢
      simp [vacant]
    simp [nothing] at offered
  · have filled : ring.low < ring.high := by omega
    have more : ring.claim.low < ring.claim.high := by
      simp only [claim]
      omega
    rw [front, if_pos more] at offered
    rw [front, if_pos filled]
    exact offered

variable [DecidableEq W]

theorem Sound.claim (sound : ring.Sound writing hollow) (room : ring.high < ring.low + ring.size) :
    ring.claim.Sound (update writing writer (some ring.high)) hollow where
  ordered := by
    have ordered := sound.ordered
    simp only [RingBuffer.claim]
    omega
  bounded := by
    simp only [RingBuffer.claim, size] at room ⊢
    omega
  pending other position claimed := by
    by_cases same : other = writer
    · subst same
      obtain rfl : ring.high = position := by simpa using claimed
      refine ⟨sound.ordered, ?_, sound.vacant _ (Int.le_refl _) room⟩
      simp only [RingBuffer.claim]
      omega
    · rw [update_of_ne same] at claimed
      obtain ⟨above, below, empty⟩ := sound.pending other position claimed
      refine ⟨above, ?_, empty⟩
      simp only [RingBuffer.claim]
      omega
  sole left right position first second := by
    -- No earlier claim is at `high`.
    have fresh : ∀ other, writing other ≠ some ring.high := fun other claimed => by
      have below := (sound.pending other _ claimed).2.1
      omega
    by_cases isLeft : left = writer <;> by_cases isRight : right = writer
    · rw [isLeft, isRight]
    · subst isLeft
      simp only [update_self, Option.some.injEq, update_of_ne isRight] at first second
      exact absurd second (first ▸ fresh right)
    · subst isRight
      simp only [update_self, Option.some.injEq, update_of_ne isLeft] at first second
      exact absurd first (second ▸ fresh left)
    · rw [update_of_ne isLeft] at first
      rw [update_of_ne isRight] at second
      exact sound.sole left right position first second
  vacant position above below := by
    refine sound.vacant position ?_ below
    simp only [RingBuffer.claim] at above
    omega
  cleared isHollow := by
    obtain ⟨filled, empty, unclaimed⟩ := sound.cleared isHollow
    refine ⟨?_, empty, ?_⟩
    · simp only [RingBuffer.claim]
      omega
    · intro other claimed
      by_cases same : other = writer
      · subst same
        have : ring.high = ring.low := by simpa [RingBuffer.claim] using claimed
        omega
      · rw [update_of_ne same] at claimed
        exact unclaimed other claimed

theorem Sound.write (sound : ring.Sound writing hollow) (claimed : writing writer = some position) :
    (ring.write position value).Sound (update writing writer none) hollow := by
  obtain ⟨above, below, _⟩ := sound.pending writer position claimed
  have bounded := sound.bounded
  -- Every other position of the round keeps its contents.
  have kept : ∀ other, other ≠ position → ring.low ≤ other → other < ring.low + ring.size →
      (ring.write position value).get other = ring.get other := fun other different low high =>
    get_write_of_ne value different (by omega) (by omega)
  have others : ∀ other found, update writing writer none other = some found →
      other ≠ writer ∧ writing other = some found := by
    intro other found pending
    by_cases same : other = writer
    · simp [same] at pending
    · exact ⟨same, by rwa [update_of_ne same] at pending⟩
  refine ⟨sound.ordered, sound.bounded, ?_, ?_, ?_, ?_⟩
  · intro other found pending
    obtain ⟨different, was⟩ := others other found pending
    obtain ⟨low, high, empty⟩ := sound.pending other found was
    have apart : found ≠ position := fun same =>
      different (sound.sole other writer position (same ▸ was) claimed)
    exact ⟨low, high, (kept found apart low (by omega)).trans empty⟩
  · intro left right found first second
    exact sound.sole left right found (others left found first).2 (others right found second).2
  · intro other high low
    have free : ring.high ≤ other := high
    have inside : other < ring.low + ring.size := low
    exact (kept other (by omega) (by omega) inside).trans (sound.vacant other free inside)
  · intro isHollow
    obtain ⟨filled, empty, unclaimed⟩ := sound.cleared isHollow
    have apart : ring.low ≠ position := fun same => unclaimed writer (same ▸ claimed)
    refine ⟨filled, (kept ring.low apart (Int.le_refl _) (by omega)).trans empty, ?_⟩
    intro other pending
    exact unclaimed other (others other _ pending).2

omit [DecidableEq W] in
theorem Sound.get_low_write {found : α} (sound : ring.Sound writing hollow)
    (claimed : writing writer = some position) (there : ring.get ring.low = some found) :
    (ring.write position value).get ring.low = some found := by
  obtain ⟨above, below, empty⟩ := sound.pending writer position claimed
  have bounded := sound.bounded
  have apart : ring.low ≠ position := fun same => by simp [same, empty] at there
  exact (get_write_of_ne value apart (by omega) (by omega)).trans there

omit [DecidableEq W] in
theorem Sound.clear (sound : ring.Sound writing hollow) (filled : ring.low < ring.high)
    (found : ring.get ring.low = some value) : ring.clear.Sound writing true := by
  have bounded := sound.bounded
  have kept : ∀ other, other ≠ ring.low → ring.low ≤ other → other < ring.low + ring.size →
      ring.clear.get other = ring.get other := fun other different low high =>
    get_clear_of_ne different (by omega) (by omega)
  have unclaimed : ∀ writer, writing writer ≠ some ring.low := fun writer claimed => by
    simp [(sound.pending writer _ claimed).2.2] at found
  refine ⟨sound.ordered, sound.bounded, ?_, sound.sole, ?_, ?_⟩
  · intro writer position claimed
    obtain ⟨low, high, empty⟩ := sound.pending writer position claimed
    have apart : position ≠ ring.low := fun same => unclaimed writer (same ▸ claimed)
    exact ⟨low, high, (kept position apart low (by omega)).trans empty⟩
  · intro position high low
    have free : ring.high ≤ position := high
    have inside : position < ring.low + ring.size := low
    exact (kept position (by omega) (by omega) inside).trans (sound.vacant position free inside)
  · intro _
    exact ⟨filled, get_clear_low ring, unclaimed⟩

omit [DecidableEq W] in
theorem Sound.advance (sound : ring.Sound writing true) : ring.advance.Sound writing false := by
  obtain ⟨filled, empty, unclaimed⟩ := sound.cleared rfl
  have bounded := sound.bounded
  refine ⟨?_, ?_, ?_, sound.sole, ?_, by simp⟩
  · simp only [RingBuffer.advance]
    omega
  · simp only [RingBuffer.advance, size] at bounded ⊢
    omega
  · intro writer position claimed
    obtain ⟨low, high, none⟩ := sound.pending writer position claimed
    have apart : position ≠ ring.low := fun same => unclaimed writer (same ▸ claimed)
    refine ⟨?_, high, none⟩
    simp only [RingBuffer.advance]
    omega
  · intro position high low
    have free : ring.high ≤ position := high
    have inside : position < ring.low + 1 + ring.size := low
    -- The slot just cleared is the last of the next round.
    by_cases last : position = ring.low + ring.size
    · rw [last]
      exact (get_add_size ring ring.low).trans empty
    · exact sound.vacant position free (by omega)

end RingBuffer

end LibFiber.Data
