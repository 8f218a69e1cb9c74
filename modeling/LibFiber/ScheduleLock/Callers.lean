import LibFiber.ScheduleLock.Machine

namespace LibFiber.ScheduleLock

open Semantics RwLock Function

/-! Where the callers of the three functions are, and what they hold there. -/

section Programs

/-- The places of a program, with what a caller holds at each. -/
def places : List Instr → List Mode → List (List Instr × List Mode)
  | [], held => [([], held)]
  | instr :: rest, held => (instr :: rest, held) :: places rest (instr.hold held)

theorem places_next (member : (instr :: rest, held) ∈ places program start) :
    (rest, instr.hold held) ∈ places program start := by
  induction program generalizing start with
  | nil => simp [places] at member
  | cons first tail ih =>
    rcases List.mem_cons.mp member with here | later
    · cases here
      refine List.mem_cons_of_mem _ ?_
      cases rest with
      | nil | cons second others => exact List.mem_cons_self
    · exact List.mem_cons_of_mem _ (ih later)

variable {call : Call}

theorem place_unlock (member : (.unlock mode :: rest, held) ∈ places call.program []) :
    held = [mode] := by
  cases call <;> simp [Call.program, places, Instr.hold] at member <;> simp [member]

theorem place_guard (member : (.guard :: rest, held) ∈ places call.program []) : held = [] := by
  cases call <;> simp [Call.program, places, Instr.hold] at member
  exact member.2

theorem place_lock (member : (.lock mode :: rest, held) ∈ places call.program []) :
    held = [] ∨ (call = .addLock ∧ rest = [] ∧ held = [.write]) := by
  cases call with
  | addLock =>
    simp [Call.program, places, Instr.hold] at member
    rcases member with ⟨_, nothing⟩ | ⟨_, nothing⟩ | ⟨⟨_, last⟩, written⟩
    · exact .inl nothing
    · exact .inl nothing
    · exact .inr ⟨rfl, last, written⟩
  | setLockStatus | isLockUsing =>
    simp [Call.program, places, Instr.hold] at member
    exact .inl member.2

theorem place_last (member : ([instr], held) ∈ places call.program [])
    (free : instr = .lock .write → held = []) : call ≠ .addLock ∧ instr.hold held = [] := by
  cases call with
  | addLock =>
    simp [Call.program, places, Instr.hold] at member
    obtain ⟨rfl, rfl⟩ := member
    cases free rfl
  | setLockStatus | isLockUsing =>
    simp [Call.program, places, Instr.hold] at member
    obtain ⟨rfl, rfl⟩ := member
    exact ⟨by decide, rfl⟩

end Programs

section Invariant

variable {Caller : Type}

def Phase.frame : Phase → Option Frame
  | .idle => none
  | .running frame | .swapping frame _ | .parking frame _ | .waking frame _ | .returned frame =>
    some frame

def Phase.held (phase : Phase) : List Mode :=
  (phase.frame.map Frame.held).getD []

@[simp] theorem held_running (frame : Frame) : (Phase.running frame).held = frame.held := rfl

@[simp] theorem held_next (frame : Frame) (instr : Instr) (rest : List Instr) :
    (frame.next instr rest).held = instr.hold frame.held := rfl

/-- The call is at a place of its program, or has ended with nothing held. -/
def Frame.Fits (frame : Frame) : Prop :=
  (frame.rest = [] ∧ frame.held = []) ∨
    (frame.rest ≠ [] ∧ (frame.rest, frame.held) ∈ places frame.call.program [])

theorem Frame.Fits.place {frame : Frame} {instr : Instr} {rest : List Instr} (fits : frame.Fits)
    (pending : frame.rest = instr :: rest) :
    (instr :: rest, frame.held) ∈ places frame.call.program [] := by
  rcases fits with ⟨ended, _⟩ | ⟨_, place⟩
  · rw [pending] at ended
    cases ended
  · rw [pending] at place
    exact place

theorem Frame.Fits.next {frame : Frame} {instr : Instr} {rest : List Instr} (fits : frame.Fits)
    (pending : frame.rest = instr :: rest) (free : instr = .lock .write → frame.held = []) :
    (frame.next instr rest).Fits := by
  have place := fits.place pending
  cases rest with
  | nil => exact .inl ⟨rfl, (place_last place free).2⟩
  | cons second others => exact .inr ⟨by simp [Frame.next], places_next place⟩

/-- A waiter is at the lock that it waits for, and a call has returned at its end. -/
def Phase.Stands : Phase → Prop
  | .parking frame mode => ∃ rest, frame.rest = .lock mode :: rest
  | .returned frame => frame.rest = []
  | _ => True

/-- Where the callers are.  The writer, if there is one, is the only caller that
holds the lock for writing, and the word says so. -/
structure Sound (state : State Caller) (writer : Option Caller) : Prop where
  fits : ∀ caller frame, (state.phase caller).frame = some frame → frame.Fits
  stands : ∀ caller, (state.phase caller).Stands
  owned : ∀ caller, .write ∈ (state.phase caller).held → writer = some caller
  locked : writer ≠ none → state.word.writeLocked ≠ 0

variable [DecidableEq Caller]
variable {caller : Caller} {frame : Frame}

theorem Sound.become
    (sound : Sound state writer) (fits : ∀ frame, next.frame = some frame → frame.Fits)
    (stands : next.Stands) (owned : .write ∈ next.held → owner = some caller)
    (others : ∀ other, other ≠ caller → writer = some other → owner = some other)
    (locked : owner ≠ none → word.writeLocked ≠ 0) {lockUsing : Int} :
    Sound { state with word, lockUsing, phase := update state.phase caller next } owner where
  fits := (forall_update_iff state.phase (fun _ phase => ∀ frame, phase.frame = some frame →
    frame.Fits)).mpr ⟨fits, fun other _ => sound.fits other⟩
  stands := (forall_update_iff state.phase (fun _ phase => phase.Stands)).mpr
    ⟨stands, fun other _ => sound.stands other⟩
  owned := (forall_update_iff state.phase (fun other phase => .write ∈ phase.held →
    owner = some other)).mpr
      ⟨owned, fun other different holds => others other different (sound.owned other holds)⟩
  locked := locked

theorem Sound.goto (sound : Sound state writer)
    (fits : ∀ frame, next.frame = some frame → frame.Fits) (stands : next.Stands)
    (held : .write ∈ next.held → .write ∈ (state.phase caller).held) :
    Sound { state with lockUsing, phase := update state.phase caller next } writer :=
  sound.become fits stands (fun holds => sound.owned caller (held holds)) (fun _ _ same => same)
    sound.locked

theorem frame_fits (fits : frame.Fits) :
    ∀ other, (some frame : Option Frame) = some other → other.Fits := by
  intro other same
  cases same
  exact fits

theorem bit_ne_zero : (1 : BitVec 1) ≠ 0 := by decide

theorem writeLocked_of_round {op : Op} {word next : Word} {commit : Commit}
    (round : op.round word = .swap next commit) (keeps : op ≠ .unlock .write)
    (locked : word.writeLocked ≠ 0) : next.writeLocked ≠ 0 := by
  cases op with
  | lock mode =>
    cases mode with
    | read =>
      simp only [Op.round, rdlock] at round
      split at round <;> (cases round; exact locked)
    | write =>
      simp only [Op.round, wrlock] at round
      split at round
      · cases round
        exact locked
      · cases round
        exact bit_ne_zero
  | trylock mode =>
    cases mode with
    | read =>
      simp only [Op.round, tryrdlock] at round
      split at round
      · contradiction
      · cases round
        exact locked
    | write =>
      simp only [Op.round, trywrlock] at round
      split at round
      · contradiction
      · cases round
        exact bit_ne_zero
  | unlock mode =>
    cases mode with
    | read =>
      simp only [Op.round, rdunlock] at round
      split_ifs at round <;> cases round <;> first | exact locked | exact bit_ne_zero
    | write => exact absurd rfl keeps

theorem round_wrlock (round : (Op.lock .write).round word = .swap next commit) :
    (commit = .wait ∧ word ≠ .free) ∨
      (commit = .acquired ∧ word = .free ∧ next = { word with writeLocked := 1 }) := by
  simp only [Op.round, wrlock] at round
  split at round
  · rename_i used
    cases round
    exact .inl ⟨rfl, fun free => used (Word.blob_eq_zero.mpr free)⟩
  · rename_i unused
    cases round
    exact .inr ⟨rfl, Word.blob_eq_zero.mp (not_not.mp unused), rfl⟩

theorem round_rdlock (round : (Op.lock .read).round word = .swap next commit) :
    (commit = .wait ∧ (word.waitingWriters ≠ 0 ∨ word.writeLocked ≠ 0 ∨ word.waitingReaders ≠ 0)) ∨
    (commit = .acquired ∧ next = { word with readerCount := word.readerCount + 1 }) := by
  simp only [Op.round, rdlock] at round
  split at round
  · rename_i used
    cases round
    exact .inl ⟨rfl, used⟩
  · cases round
    exact .inr ⟨rfl, rfl⟩

theorem unlock_commits
    (round : (Op.unlock mode).round word = .swap next commit) : commit ≠ .wait := by
  cases mode with
  | read =>
    simp only [Op.round, rdunlock] at round
    split_ifs at round <;> cases round <;> simp
  | write =>
    simp only [Op.round, wrunlock] at round
    split_ifs at round <;> cases round <;> simp

/-- The frame behind a commitment: the same when the caller has to wait, and the next
place of the program otherwise. -/
theorem committed_frame (goes : commit ≠ .wait) :
    (committed frame instr rest mode commit).frame = some (frame.next instr rest) := by
  cases commit with
  | wait => exact absurd rfl goes
  | acquired | released | wake => rfl

theorem committed_stands
    (goes : commit ≠ .wait) : (committed frame instr rest mode commit).Stands := by
  cases commit with
  | wait => exact absurd rfl goes
  | acquired | released | wake => trivial

theorem committed_held (goes : commit ≠ .wait) :
    (committed frame instr rest mode commit).held = instr.hold frame.held := by
  rw [Phase.held, committed_frame goes]
  rfl

theorem Sound.wait {rest : List Instr} {mode : Mode} {word : Word}
    (sound : Sound state writer) (phase : state.phase caller = .swapping frame state.word)
    (pending : frame.rest = .lock mode :: rest)
    (round : (Op.lock mode).round state.word = .swap word .wait) :
    Sound { state with
      word
      phase := update state.phase caller (committed frame (.lock mode) rest mode .wait) }
      writer := by
  have fits : frame.Fits := sound.fits caller frame (by rw [phase]; rfl)
  refine sound.become ?_ ?_ ?_ (fun _ _ same => same) ?_
  · exact frame_fits fits
  · exact ⟨rest, pending⟩
  · intro holds
    exact sound.owned caller (by rw [phase]; exact holds)
  · exact fun owned => writeLocked_of_round round nofun (sound.locked owned)

theorem Sound.proceed {instr : Instr} {rest : List Instr} {op : Op} {word : Word} {commit : Commit}
    (sound : Sound state writer) (phase : state.phase caller = .swapping frame state.word)
    (round : op.round state.word = .swap word commit) (keeps : op ≠ .unlock .write)
    (goes : commit ≠ .wait) (fits : (frame.next instr rest).Fits)
    (held : .write ∈ instr.hold frame.held → .write ∈ frame.held) :
    Sound { state with
      word
      phase := update state.phase caller (committed frame instr rest op.mode commit) }
      writer := by
  refine sound.become ?_ (committed_stands goes) ?_ (fun _ _ same => same) ?_
  · rw [committed_frame goes]
    exact frame_fits fits
  · intro holds
    rw [committed_held goes] at holds
    exact sound.owned caller (by rw [phase]; exact held holds)
  · exact fun owned => writeLocked_of_round round keeps (sound.locked owned)

theorem Sound.commit {instr : Instr} {rest : List Instr} {op : Op} {word : Word} {commit : Commit}
    (sound : Sound state writer) (phase : state.phase caller = .swapping frame state.word)
    (pending : frame.rest = instr :: rest) (found : instr.op = some op)
    (round : op.round state.word = .swap word commit) :
    ∃ owner, Sound { state with
      word
      phase := update state.phase caller (committed frame instr rest op.mode commit) } owner := by
  have fits : frame.Fits := sound.fits caller frame (by rw [phase]; rfl)
  have owned : .write ∈ frame.held → writer = some caller := by
    intro holds
    exact sound.owned caller (by rw [phase]; exact holds)
  cases instr with
  | load | store | guard => simp [Instr.op] at found
  | lock mode =>
    obtain rfl : Op.lock mode = op := Option.some.inj found
    cases mode with
    | read =>
      rcases round_rdlock round with ⟨rfl, _⟩ | ⟨rfl, _⟩
      · exact ⟨writer, sound.wait phase pending round⟩
      · refine ⟨writer, sound.proceed phase round (by decide) (by decide)
          (fits.next pending nofun) ?_⟩
        simp [Instr.hold]
    | write =>
      rcases round_wrlock round with ⟨rfl, _⟩ | ⟨rfl, free, rfl⟩
      · exact ⟨writer, sound.wait phase pending round⟩
      · -- the second lock of `add_lock` finds a word that is not free
        have nobody : writer = none := by
          by_contra someone
          exact sound.locked someone (by rw [free]; rfl)
        have nothing : frame.held = [] := by
          rcases place_lock (fits.place pending) with empty | ⟨_, _, written⟩
          · exact empty
          · have mine := owned (by simp [written])
            rw [nobody] at mine
            cases mine
        refine ⟨some caller, sound.become ?_ (committed_stands (by decide)) (fun _ => rfl) ?_
          (fun _ => bit_ne_zero)⟩
        · rw [committed_frame (by decide)]
          exact frame_fits (fits.next pending fun _ => nothing)
        · intro other _ theirs
          rw [nobody] at theirs
          cases theirs
  | unlock mode =>
    obtain rfl : Op.unlock mode = op := Option.some.inj found
    have goes := unlock_commits round
    have next := fits.next pending nofun
    cases mode with
    | read =>
      refine ⟨writer, sound.proceed phase round (by decide) goes next ?_⟩
      exact List.mem_of_mem_erase
    | write =>
      have mine := place_unlock (fits.place pending)
      refine ⟨none, sound.become ?_ (committed_stands goes) ?_ ?_ fun never => absurd rfl never⟩
      · rw [committed_frame goes]
        exact frame_fits next
      · intro holds
        rw [committed_held goes, mine] at holds
        simp [Instr.hold] at holds
      · intro other different theirs
        rw [owned (by simp [mine])] at theirs
        exact absurd (Option.some.inj theirs).symm different

theorem Sound.step (sound : Sound state writer) (moved : Move state caller after) :
    ∃ owner, Sound after owner := by
  cases moved with
  | @call call =>
    refine ⟨writer, sound.goto (frame_fits (.inr ⟨?_, ?_⟩)) trivial ?_⟩
    · cases call <;> simp [Call.program]
    · cases call <;> exact List.mem_cons_self
    · simp [Phase.held, Phase.frame]
  | finish phase ended =>
    have fits := sound.fits caller _ (by rw [phase]; rfl)
    refine ⟨writer, sound.goto (frame_fits fits) ended ?_⟩
    rw [phase]
    exact id
  | enter phase | retry phase =>
    have fits := sound.fits caller _ (by rw [phase]; rfl)
    refine ⟨writer, sound.goto (frame_fits fits) trivial ?_⟩
    rw [phase]
    exact id
  | load phase pending | store phase pending | proceed phase pending =>
    have fits := sound.fits caller _ (by rw [phase]; rfl)
    refine ⟨writer, sound.goto (frame_fits (fits.next pending nofun)) trivial ?_⟩
    rw [phase]
    exact id
  | skip phase pending =>
    have fits := sound.fits caller _ (by rw [phase]; rfl)
    refine ⟨writer,
      sound.goto (frame_fits (.inl ⟨rfl, place_guard (fits.place pending)⟩)) trivial ?_⟩
    rw [phase]
    exact id
  | commit phase pending found round => exact sound.commit phase pending found round

/-- No call of `add_lock` finds `lock_using` negative. -/
def added (state : State Caller) : Action Caller → Bool
  | .move caller =>
    match state.phase caller with
    | .running frame =>
      match frame.rest with
      | .guard :: _ => decide (0 ≤ frame.val)
      | _ => true
    | _ => true
  | .call _ _ => true

/-- `add_lock` has not come behind its test, or has returned from there. -/
def Frame.Early (frame : Frame) : Prop :=
  frame.call = .addLock → .guard ∈ frame.rest ∨ frame.rest = []

omit [DecidableEq Caller] in
theorem Frame.Early.next {instr : Instr} {rest : List Instr} (early : frame.Early)
    (pending : frame.rest = instr :: rest) (other : instr ≠ .guard) :
    ∀ later : Frame, later.call = frame.call → later.rest = rest → later.Early := by
  intro later call tail adding
  rcases early (call ▸ adding) with ahead | ended
  · rw [pending] at ahead
    rcases List.mem_cons.mp ahead with here | behind
    · exact absurd here.symm other
    · exact .inl (tail ▸ behind)
  · rw [pending] at ended
    cases ended

theorem Frame.Early.held {mode : Mode} {rest : List Instr} (early : frame.Early)
    (fits : frame.Fits) (pending : frame.rest = .lock mode :: rest) : frame.held = [] := by
  rcases place_lock (fits.place pending) with nothing | ⟨adding, last, _⟩
  · exact nothing
  · rcases early adding with ahead | ended
    · simp [pending, last] at ahead
    · rw [pending] at ended
      cases ended

theorem early_step (moved : Move state caller after)
    (allowed : ∀ frame rest, state.phase caller = .running frame → frame.rest = .guard :: rest →
      ¬ frame.val < 0)
    (early : ∀ caller frame, (state.phase caller).frame = some frame → frame.Early) :
    ∀ caller frame, (after.phase caller).frame = some frame → frame.Early := by
  have become : ∀ next : Phase, (∀ frame, next.frame = some frame → frame.Early) →
      ∀ other frame, (update state.phase caller next other).frame = some frame → frame.Early :=
    fun next holds => (forall_update_iff state.phase (fun _ phase => ∀ frame,
      phase.frame = some frame → frame.Early)).mpr ⟨holds, fun other _ => early other⟩
  cases moved with
  | @call call =>
    refine become _ fun frame same => ?_
    cases same
    intro adding
    obtain rfl : call = .addLock := adding
    exact .inl (by decide)
  | finish phase _ | enter phase | retry phase =>
    refine become _ fun frame same => ?_
    cases same
    exact early caller _ (by rw [phase]; rfl)
  | load phase pending | store phase pending =>
    refine become _ fun frame same => ?_
    cases same
    have before := early caller _ (by rw [phase]; rfl)
    exact before.next pending nofun _ rfl rfl
  | proceed phase pending negative => exact absurd negative (allowed _ _ phase pending)
  | skip phase pending =>
    refine become _ fun frame same => ?_
    cases same
    exact fun _ => .inr rfl
  | @commit frame instr rest op word commit phase pending found round =>
    have before := early caller frame (by rw [phase]; rfl)
    have operation : instr ≠ .guard := by
      rintro rfl
      simp [Instr.op] at found
    refine become _ fun later same => ?_
    cases commit with
    | wait =>
      cases same
      exact before
    | acquired | released | wake =>
      cases same
      exact before.next pending operation _ rfl rfl

end Invariant

end LibFiber.ScheduleLock
