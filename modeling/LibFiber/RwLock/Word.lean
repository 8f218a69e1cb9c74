import Mathlib.Algebra.Group.Nat.Defs
import Mathlib.Data.Nat.Basic

namespace LibFiber.RwLock

/-! The packed lock word and what one round of each operation does to it.

The four fields fill the 64-bit blob exactly, so a compare-and-swap of the blob
compares all of them.
-/

structure Word where
  writeLocked : BitVec 1
  readerCount : BitVec 21
  waitingReaders : BitVec 21
  waitingWriters : BitVec 21
deriving DecidableEq, Repr

def Word.blob (word : Word) : BitVec 64 :=
  word.waitingWriters ++ word.waitingReaders ++ word.readerCount ++ word.writeLocked

theorem append_inj {x y : BitVec v} {z t : BitVec w} (same : x ++ z = y ++ t) :
    x = y ∧ z = t := by
  have high := congrArg (BitVec.extractLsb' w v) same
  have low := congrArg (BitVec.setWidth w) same
  rw [BitVec.extractLsb'_append_eq_left, BitVec.extractLsb'_append_eq_left] at high
  rw [BitVec.setWidth_append_eq_right, BitVec.setWidth_append_eq_right] at low
  exact ⟨high, low⟩

theorem Word.blob_injective {left right : Word} (same : left.blob = right.blob) :
    left = right := by
  obtain ⟨rest, locked⟩ := append_inj same
  obtain ⟨rest, readers⟩ := append_inj rest
  obtain ⟨writers, waiters⟩ := append_inj rest
  cases left
  cases right
  simp_all

def Word.free : Word := ⟨0, 0, 0, 0⟩

variable {word : Word}

theorem Word.blob_eq_zero : word.blob = 0 ↔ word = Word.free :=
  ⟨fun zero => Word.blob_injective (zero.trans rfl), fun free => free ▸ rfl⟩

inductive Mode where
  | read
  | write
deriving DecidableEq, Repr

/-- What a successful compare-and-swap commits the caller to. -/
inductive Commit where
  | acquired
  | wait
  | released
  | wake (mode : Mode) (count : Nat)
deriving DecidableEq, Repr

/-- One round of an operation on a snapshot: give up with `FIBER_ERROR`, or try
to install a word. -/
inductive Round where
  | error
  | swap (word : Word) (commit : Commit)
deriving DecidableEq, Repr

def rdlock (current : Word) : Round :=
  if current.waitingWriters ≠ 0 ∨ current.writeLocked ≠ 0 ∨ current.waitingReaders ≠ 0 then
    .swap { current with waitingReaders := current.waitingReaders + 1 } .wait
  else
    .swap { current with readerCount := current.readerCount + 1 } .acquired

def wrlock (current : Word) : Round :=
  if current.blob ≠ 0 then
    .swap { current with waitingWriters := current.waitingWriters + 1 } .wait
  else
    .swap { current with writeLocked := 1 } .acquired

def tryrdlock (current : Word) : Round :=
  if current.waitingWriters ≠ 0 ∨ current.writeLocked ≠ 0 ∨ current.waitingReaders ≠ 0 then
    .error
  else
    .swap { current with readerCount := current.readerCount + 1 } .acquired

def trywrlock (current : Word) : Round :=
  if current.blob ≠ 0 then .error
  else .swap { current with writeLocked := 1 } .acquired

def rdunlock (snapshot : Word) : Round :=
  let current := { snapshot with readerCount := snapshot.readerCount - 1 }
  if current.readerCount = 0 then
    if current.waitingWriters ≠ 0 then
      .swap { current with writeLocked := 1, waitingWriters := current.waitingWriters - 1 }
        (.wake .write 1)
    else if current.waitingReaders ≠ 0 then
      .swap { current with readerCount := current.waitingReaders, waitingReaders := 0 }
        (.wake .read current.waitingReaders.toNat)
    else .swap current .released
  else .swap current .released

def wrunlock (snapshot : Word) : Round :=
  let current := { snapshot with writeLocked := 0 }
  if current.waitingWriters ≠ 0 then
    .swap { current with writeLocked := 1, waitingWriters := current.waitingWriters - 1 }
      (.wake .write 1)
  else if current.waitingReaders ≠ 0 then
    .swap { current with readerCount := current.waitingReaders, waitingReaders := 0 }
      (.wake .read current.waitingReaders.toNat)
  else .swap current .released

inductive Op where
  | lock (mode : Mode)
  | trylock (mode : Mode)
  | unlock (mode : Mode)
deriving DecidableEq, Repr

@[simp] def Op.mode : Op → Mode
  | .lock mode | .trylock mode | .unlock mode => mode

def Op.round : Op → Word → Round
  | .lock .read => rdlock
  | .lock .write => wrlock
  | .trylock .read => tryrdlock
  | .trylock .write => trywrlock
  | .unlock .read => rdunlock
  | .unlock .write => wrunlock

/-- The asserts an operation makes on its snapshot. -/
def Op.asserts : Op → Word → Prop
  | .unlock .read, word => 0 < word.readerCount.toNat ∧ word.writeLocked = 0
  | .unlock .write, word => word.readerCount = 0 ∧ word.writeLocked ≠ 0
  | _, _ => True

/-- No field wraps in one round on `word`: each field the round increments has
room for it and each field it decrements is positive. -/
def Op.exact : Op → Word → Prop
  | .lock .read, word =>
    if word.waitingWriters ≠ 0 ∨ word.writeLocked ≠ 0 ∨ word.waitingReaders ≠ 0 then
      word.waitingReaders.toNat + 1 < 2 ^ 21
    else word.readerCount.toNat + 1 < 2 ^ 21
  | .lock .write, word => word.blob ≠ 0 → word.waitingWriters.toNat + 1 < 2 ^ 21
  | .trylock .read, word =>
    (word.waitingWriters = 0 ∧ word.writeLocked = 0 ∧ word.waitingReaders = 0) →
      word.readerCount.toNat + 1 < 2 ^ 21
  | .trylock .write, _ => True
  | .unlock .read, word =>
    0 < word.readerCount.toNat ∧
      (word.readerCount - 1 = 0 → word.waitingWriters ≠ 0 → 0 < word.waitingWriters.toNat)
  | .unlock .write, word => word.waitingWriters ≠ 0 → 0 < word.waitingWriters.toNat

/-- The four fields read as unbounded counters. -/
structure Counts where
  writeLocked : Nat
  readerCount : Nat
  waitingReaders : Nat
  waitingWriters : Nat

def Word.counts (word : Word) : Counts where
  writeLocked := word.writeLocked.toNat
  readerCount := word.readerCount.toNat
  waitingReaders := word.waitingReaders.toNat
  waitingWriters := word.waitingWriters.toNat

/-- How often the lock is held or granted in a mode. -/
def Counts.locked (counts : Counts) : Mode → Nat
  | .read => counts.readerCount
  | .write => counts.writeLocked

def Counts.waiting (counts : Counts) : Mode → Nat
  | .read => counts.waitingReaders
  | .write => counts.waitingWriters

/-- The lock as a table of rules over unbounded counters.  A free lock admits,
a lock in use makes the caller wait, and the last holder to leave passes the
lock to one waiting writer or else to every waiting reader. -/
inductive Effect : Op → Counts → Counts → Commit → Prop where
  | readWait : 0 < c.waitingWriters ∨ 0 < c.writeLocked ∨ 0 < c.waitingReaders →
      Effect (.lock .read) c { c with waitingReaders := c.waitingReaders + 1 } .wait
  | readEnter {c : Counts} {op : Op} : op = .lock .read ∨ op = .trylock .read →
      c.waitingWriters = 0 → c.writeLocked = 0 → c.waitingReaders = 0 →
      Effect op c { c with readerCount := c.readerCount + 1 } .acquired
  | writeWait :
      0 < c.writeLocked ∨ 0 < c.readerCount ∨ 0 < c.waitingReaders ∨ 0 < c.waitingWriters →
      Effect (.lock .write) c { c with waitingWriters := c.waitingWriters + 1 } .wait
  | writeEnter {c : Counts} {op : Op} : op = .lock .write ∨ op = .trylock .write →
      c.writeLocked = 0 → c.readerCount = 0 → c.waitingReaders = 0 → c.waitingWriters = 0 →
      Effect op c { c with writeLocked := 1 } .acquired
  | readLeave : 0 < c.readerCount →
      (c.readerCount = 1 → c.waitingWriters = 0 ∧ c.waitingReaders = 0) →
      Effect (.unlock .read) c { c with readerCount := c.readerCount - 1 } .released
  | readToWriter : c.readerCount = 1 → 0 < c.waitingWriters →
      Effect (.unlock .read) c
        { c with readerCount := 0, writeLocked := 1, waitingWriters := c.waitingWriters - 1 }
        (.wake .write 1)
  | readToReaders : c.readerCount = 1 → c.waitingWriters = 0 → 0 < c.waitingReaders →
      Effect (.unlock .read) c { c with readerCount := c.waitingReaders, waitingReaders := 0 }
        (.wake .read c.waitingReaders)
  | writeLeave : c.waitingWriters = 0 → c.waitingReaders = 0 →
      Effect (.unlock .write) c { c with writeLocked := 0 } .released
  | writeToWriter : 0 < c.waitingWriters →
      Effect (.unlock .write) c
        { c with writeLocked := 1, waitingWriters := c.waitingWriters - 1 } (.wake .write 1)
  | writeToReaders : c.waitingWriters = 0 → 0 < c.waitingReaders →
      Effect (.unlock .write) c
        { c with writeLocked := 0, readerCount := c.waitingReaders, waitingReaders := 0 }
        (.wake .read c.waitingReaders)

theorem toNat_pos {x : BitVec w} : 0 < x.toNat ↔ x ≠ 0 := by
  rw [Nat.pos_iff_ne_zero, ne_eq, ne_eq, ← BitVec.toNat_inj]
  rfl

theorem toNat_zero {x : BitVec w} : x.toNat = 0 ↔ x = 0 := by
  rw [← BitVec.toNat_inj]
  rfl

theorem toNat_succ {x : BitVec 21} (room : x.toNat + 1 < 2 ^ 21) :
    (x + 1).toNat = x.toNat + 1 := by
  rw [BitVec.toNat_add]
  exact Nat.mod_eq_of_lt room

theorem toNat_pred {x : BitVec 21} (positive : 0 < x.toNat) :
    (x - 1).toNat = x.toNat - 1 := by
  bv_omega

theorem Word.counts_pos_of_blob (used : word.blob ≠ 0) :
    0 < word.counts.writeLocked ∨ 0 < word.counts.readerCount ∨
      0 < word.counts.waitingReaders ∨ 0 < word.counts.waitingWriters := by
  by_contra unused
  simp only [Word.counts, not_or, toNat_pos, not_not] at unused
  obtain ⟨locked, readers, waiters, writers⟩ := unused
  apply used
  rw [Word.blob_eq_zero]
  cases word
  simp_all [Word.free]

theorem rdlock_effect
    (exact : (Op.lock .read).exact word) (round : rdlock word = .swap next commit) :
    Effect (.lock .read) word.counts next.counts commit := by
  unfold rdlock at round
  simp only [Op.exact] at exact
  split at round
  · rename_i contended
    rw [if_pos contended] at exact
    cases round
    simp only [Word.counts, toNat_succ exact]
    exact .readWait (by simpa only [toNat_pos] using contended)
  · rename_i open_
    rw [if_neg open_] at exact
    cases round
    simp only [not_or, not_not] at open_
    obtain ⟨writers, locked, readers⟩ := open_
    simp only [Word.counts, toNat_succ exact]
    exact .readEnter (.inl rfl) (toNat_zero.mpr writers) (toNat_zero.mpr locked)
      (toNat_zero.mpr readers)

theorem tryrdlock_effect
    (exact : (Op.trylock .read).exact word) (round : tryrdlock word = .swap next commit) :
    Effect (.trylock .read) word.counts next.counts commit := by
  unfold tryrdlock at round
  split at round
  · contradiction
  · rename_i open_
    cases round
    simp only [not_or, not_not] at open_
    have room := exact open_
    obtain ⟨writers, locked, readers⟩ := open_
    simp only [Word.counts, toNat_succ room]
    exact .readEnter (.inr rfl) (toNat_zero.mpr writers) (toNat_zero.mpr locked)
      (toNat_zero.mpr readers)

theorem wrlock_effect
    (exact : (Op.lock .write).exact word) (round : wrlock word = .swap next commit) :
    Effect (.lock .write) word.counts next.counts commit := by
  unfold wrlock at round
  split at round
  · rename_i used
    cases round
    have held := Word.counts_pos_of_blob used
    simp only [Word.counts, toNat_succ (exact used)] at held ⊢
    exact .writeWait held
  · rename_i unused
    cases round
    rw [not_not, Word.blob_eq_zero] at unused
    subst unused
    exact .writeEnter (.inl rfl) rfl rfl rfl rfl

theorem trywrlock_effect (round : trywrlock word = .swap next commit) :
    Effect (.trylock .write) word.counts next.counts commit := by
  unfold trywrlock at round
  split at round
  · contradiction
  · rename_i unused
    cases round
    rw [not_not, Word.blob_eq_zero] at unused
    subst unused
    exact .writeEnter (.inr rfl) rfl rfl rfl rfl

theorem rdunlock_effect
    (exact : (Op.unlock .read).exact word) (round : rdunlock word = .swap next commit) :
    Effect (.unlock .read) word.counts next.counts commit := by
  obtain ⟨held, _⟩ := exact
  have fewer := toNat_pred held
  unfold rdunlock at round
  dsimp only at round
  split at round
  · rename_i last
    have one : word.readerCount.toNat = 1 := by
      rw [last] at fewer
      simp only [BitVec.ofNat_eq_ofNat, BitVec.toNat_ofNat, Nat.zero_mod] at fewer
      omega
    split at round
    · rename_i writers
      cases round
      have waiting := toNat_pos.mpr writers
      simp only [Word.counts, last, toNat_pred waiting]
      exact .readToWriter one waiting
    · rename_i writers
      rw [not_not] at writers
      split at round
      · rename_i readers
        cases round
        exact .readToReaders one (toNat_zero.mpr writers) (toNat_pos.mpr readers)
      · rename_i readers
        rw [not_not] at readers
        cases round
        simp only [Word.counts, fewer]
        exact .readLeave held fun _ => ⟨toNat_zero.mpr writers, toNat_zero.mpr readers⟩
  · rename_i others
    cases round
    have left := toNat_pos.mpr others
    simp only [Word.counts, fewer]
    refine .readLeave held fun one => ?_
    simp only at one
    omega

theorem wrunlock_effect (round : wrunlock word = .swap next commit) :
    Effect (.unlock .write) word.counts next.counts commit := by
  unfold wrunlock at round
  dsimp only at round
  split at round
  · rename_i writers
    cases round
    have waiting := toNat_pos.mpr writers
    simp only [Word.counts, toNat_pred waiting]
    exact .writeToWriter waiting
  · rename_i writers
    rw [not_not] at writers
    split at round
    · rename_i readers
      cases round
      exact .writeToReaders (toNat_zero.mpr writers) (toNat_pos.mpr readers)
    · rename_i readers
      rw [not_not] at readers
      cases round
      exact .writeLeave (toNat_zero.mpr writers) (toNat_zero.mpr readers)

theorem Op.trylock_of_error {op : Op} (round : op.round word = .error) :
    ∃ mode, op = .trylock mode := by
  cases op with
  | trylock mode => exact ⟨mode, rfl⟩
  | lock mode =>
    cases mode with
    | read => simp only [Op.round, rdlock] at round; split at round <;> contradiction
    | write => simp only [Op.round, wrlock] at round; split at round <;> contradiction
  | unlock mode =>
    cases mode with
    | read => simp only [Op.round, rdunlock] at round; split_ifs at round
    | write => simp only [Op.round, wrunlock] at round; split_ifs at round

theorem Op.round_effect (exact : op.exact word) (round : op.round word = .swap next commit) :
    Effect op word.counts next.counts commit := by
  cases op with
  | lock mode =>
    cases mode with
    | read => exact rdlock_effect exact round
    | write => exact wrlock_effect exact round
  | trylock mode =>
    cases mode with
    | read => exact tryrdlock_effect exact round
    | write => exact trywrlock_effect round
  | unlock mode =>
    cases mode with
    | read => exact rdunlock_effect exact round
    | write => exact wrunlock_effect round

end LibFiber.RwLock
