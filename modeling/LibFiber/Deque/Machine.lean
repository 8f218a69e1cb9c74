import LibFiber.Data.CircularArray
import LibFiber.Semantics.Machine

namespace LibFiber.Deque

open Data Semantics Function

/-! The work-stealing deque: one owner pushing and popping at the bottom, any
number of thieves stealing at the top.

Every load, store and compare-and-swap is a step of its own.  Arrays are never
freed while the deque lives, so a thief may go on reading one that has been
replaced: `arrays` keeps all of them and `current` is the published one.
Indices are `int64_t` counters that do not come near their limit.
-/

/-- The owner, by the access it makes next. -/
inductive Owner (α : Type) where
  | idle
  | pushLoadTop (p : α) (b : Int)
  | pushLoadArray (p : α) (b t : Int)
  /-- In the copying loop of `grow`, at index `i`. -/
  | growCopy (p : α) (b t i : Int)
  | pushPublish (p : α) (b : Int)
  | pushPut (p : α) (b : Int)
  | pushStore (p : α) (b : Int)
  | popLoadArray (b : Int)
  | popStore (b : Int) (a : Nat)
  | popLoadTop (b : Int) (a : Nat)
  /-- The deque was empty; about to restore the bottom. -/
  | popReset (t : Int)
  | popGet (b t : Int) (a : Nat)
  | popCas (t : Int) (ret : Option α)
  /-- About to restore the bottom after the compare-and-swap, which has taken
  `ret` or failed. -/
  | popFinish (tPlusOne : Int) (ret : Option (Option α))
deriving DecidableEq, Repr

inductive Thief (α : Type) where
  | idle
  | loadBottom (t : Int)
  | loadArray (t b : Int)
  | get (t : Int) (a : Nat)
  | cas (t : Int) (ret : Option α)
deriving DecidableEq, Repr

structure State (Id α : Type) where
  top : Int
  bottom : Int
  arrays : Nat → CircularArray α
  current : Nat
  owner : Owner α
  thief : Id → Thief α

inductive Action (Id α : Type) where
  /-- The first load of `push_bottom` and of `pop_bottom`. -/
  | push (p : α)
  | pop
  | owner (spurious : Bool)
  /-- The first load of `steal`. -/
  | steal (id : Id)
  | thief (id : Id) (spurious : Bool)
deriving DecidableEq, Repr

/-- What a step returns to the caller of a deque operation, if anything. -/
inductive Outcome (α : Type) where
  | internal
  | pushed (p : α)
  | popped (ret : Option α)
  /-- `pop_bottom` returned EMPTY or ABORT. -/
  | popFailed
  | stolen (ret : Option α)
  /-- `steal` returned EMPTY or ABORT. -/
  | stealFailed
deriving DecidableEq, Repr

variable {Id α : Type}

def init : State Id α where
  top := 0
  bottom := 0
  arrays := fun _ => .create 8
  current := 0
  owner := .idle
  thief := fun _ => .idle

namespace State

/-- `d->underlying_array`. -/
def underlying (state : State Id α) : CircularArray α :=
  state.arrays state.current

def goto (state : State Id α) (next : Owner α) : State Id α :=
  { state with owner := next }

/-- Store into the array with index `a`. -/
def put (state : State Id α) (a : Nat) (index : Int) (value : Option α) : State Id α :=
  { state with arrays := update state.arrays a ((state.arrays a).put index value) }

end State

/-- `push_bottom` after its loads: grow when the array may be full. -/
def pushDecide (state : State Id α) (p : α) (b t : Int) : State Id α :=
  if b - t ≥ state.underlying.sizeMinusOne then
    { state with
      arrays := update state.arrays (state.current + 1) (.create (state.underlying.logSize + 1))
      owner := .growCopy p b t t }
  else state.goto (.pushPut p b)

def growCopy (state : State Id α) (p : α) (b t i : Int) : State Id α :=
  if i < b then
    (state.put (state.current + 1) i (state.underlying.get i)).goto (.growCopy p b t (i + 1))
  else state.goto (.pushPublish p b)

/-- `pop_bottom` after its load of the top. -/
def popDecide (state : State Id α) (b : Int) (a : Nat) : State Id α :=
  let t := state.top
  if b - t < 0 then state.goto (.popReset t) else state.goto (.popGet b t a)

/-- The read of the bottom entry: it is the owner's unless it is also the top. -/
def popGet (state : State Id α) (b t : Int) (a : Nat) : State Id α × Outcome α :=
  let ret := (state.arrays a).get b
  if b - t > 0 then (state.goto .idle, .popped ret) else (state.goto (.popCas t ret), .internal)

def popCas (state : State Id α) (t : Int) (ret : Option α) (spurious : Bool) : State Id α :=
  if state.top = t ∧ spurious = false then
    { state with top := t + 1, owner := .popFinish (t + 1) (some ret) }
  else state.goto (.popFinish (t + 1) none)

def popFinish (state : State Id α) (tPlusOne : Int) (ret : Option (Option α)) :
    State Id α × Outcome α :=
  ({ state with bottom := tPlusOne, owner := .idle },
    match ret with
    | some value => .popped value
    | none => .popFailed)

def ownerStep (state : State Id α) (spurious : Bool) : Option (State Id α × Outcome α) :=
  match state.owner with
  | .idle => none
  | .pushLoadTop p b => some (state.goto (.pushLoadArray p b state.top), .internal)
  | .pushLoadArray p b t => some (pushDecide state p b t, .internal)
  | .growCopy p b t i => some (growCopy state p b t i, .internal)
  | .pushPublish p b =>
    some ({ state with current := state.current + 1, owner := .pushPut p b }, .internal)
  | .pushPut p b =>
    some ((state.put state.current b (some p)).goto (.pushStore p b), .internal)
  | .pushStore p b => some ({ state with bottom := b + 1, owner := .idle }, .pushed p)
  | .popLoadArray b => some (state.goto (.popStore b state.current), .internal)
  | .popStore b a => some ({ state with bottom := b, owner := .popLoadTop b a }, .internal)
  | .popLoadTop b a => some (popDecide state b a, .internal)
  | .popReset t => some ({ state with bottom := t, owner := .idle }, .popFailed)
  | .popGet b t a => some (popGet state b t a)
  | .popCas t ret => some (popCas state t ret spurious, .internal)
  | .popFinish tPlusOne ret => some (popFinish state tPlusOne ret)

variable [DecidableEq Id]

def State.move (state : State Id α) (id : Id) (next : Thief α) : State Id α :=
  { state with thief := update state.thief id next }

def stealDecide (state : State Id α) (id : Id) (t b : Int) : State Id α × Outcome α :=
  if b - t ≤ 0 then (state.move id .idle, .stealFailed)
  else (state.move id (.get t state.current), .internal)

def stealCas (state : State Id α) (id : Id) (t : Int) (ret : Option α) (spurious : Bool) :
    State Id α × Outcome α :=
  if state.top = t ∧ spurious = false then
    ({ state with top := t + 1, thief := update state.thief id .idle }, .stolen ret)
  else (state.move id .idle, .stealFailed)

def thiefStep (state : State Id α) (id : Id) (spurious : Bool) :
    Option (State Id α × Outcome α) :=
  match state.thief id with
  | .idle => none
  | .loadBottom t => some (state.move id (.loadArray t state.bottom), .internal)
  | .loadArray t b => some (stealDecide state id t b)
  | .get t a => some (state.move id (.cas t ((state.arrays a).get t)), .internal)
  | .cas t ret => some (stealCas state id t ret spurious)

def advance (state : State Id α) : Action Id α → Option (State Id α × Outcome α)
  | .push p =>
    match state.owner with
    | .idle => some (state.goto (.pushLoadTop p state.bottom), .internal)
    | _ => none
  | .pop =>
    match state.owner with
    | .idle => some (state.goto (.popLoadArray (state.bottom - 1)), .internal)
    | _ => none
  | .owner spurious => ownerStep state spurious
  | .steal id =>
    match state.thief id with
    | .idle => some (state.move id (.loadBottom state.top), .internal)
    | _ => none
  | .thief id spurious => thiefStep state id spurious

def machine (Id α : Type) [DecidableEq Id] : Machine (State Id α) (Action Id α) where
  initial state := state = init
  step state action := (advance state action).map Prod.fst

def outcome (state : State Id α) (action : Action Id α) : Outcome α :=
  ((advance state action).map Prod.snd).getD .internal

abbrev History (Id α : Type) := List (State Id α × Action Id α)

def Outcome.pushes : Outcome α → List (Option α)
  | .pushed p => [some p]
  | _ => []

def Outcome.takes : Outcome α → List (Option α)
  | .popped ret | .stolen ret => [ret]
  | _ => []

/-- The elements whose push has returned, and those that a pop or a steal has
returned. -/
def pushed (history : History Id α) : List (Option α) :=
  history.flatMap fun taken => (outcome taken.1 taken.2).pushes

def returned (history : History Id α) : List (Option α) :=
  history.flatMap fun taken => (outcome taken.1 taken.2).takes

end LibFiber.Deque
