import Treewalk.Output
import Treewalk.Store

/-!
Runs: computations on a world of variables, output and time that may stop early. The world stays
as it was when a run stopped.
-/

namespace Treewalk

/-- A clock: what it shows at each reading, and how often it has been read. -/
structure Clock where
  showing : Nat → Number
  readings : Nat := 0

/-- All that a run can see and change. -/
structure World where
  store : Store
  output : Output
  clock : Clock

abbrev Run := EStateM Stop World

namespace Run

def stop {α : Type} (reason : Stop) : Run α :=
  throw reason

def ofExcept {α : Type} : Except Stop α → Run α
  | .ok value => pure value
  | .error reason => stop reason

/-- The value of a name. -/
def lookup (frame : FrameId) (name : Token) : Run Value := do
  ofExcept ((← get).store.get frame name)

/-- Changes the store, unless the change is refused. -/
def changeStore (change : Store → Except Stop Store) : Run Unit := do
  let store ← ofExcept (change (← get).store)
  modify ({ · with store })

def assign (frame : FrameId) (name : Token) (value : Value) : Run Unit :=
  changeStore (·.assign frame name value)

def define (frame : FrameId) (name : Token) (value : Value) : Run Unit :=
  changeStore (·.define frame name value)

/-- Writes the text of a value on a line of its own. -/
def writeLine (value : Value) : Run Unit := fun world =>
  match world.output.writeLine value.text with
  | (true, output) => .ok () { world with output }
  | (false, output) => .error (.error .outputClosed) { world with output }

def readClock : Run Number := fun world =>
  let clock := world.clock
  .ok (clock.showing clock.readings)
    { world with clock := { clock with readings := clock.readings + 1 } }

/-- Releases a frame after a run in it. -/
def release (frame : FrameId) : Run Unit :=
  changeStore fun store => (store.pop frame).mapError .fault

/-- Runs in a new frame within another and releases it, whether or not the run stops early. -/
def inFrame (parent : FrameId) (body : FrameId → Run Unit) : Run Unit := fun world =>
  let (frame, store) := world.store.push parent
  match body frame { world with store } with
  | .ok () world => release frame world
  | .error reason world =>
      match release frame world with
      | .ok () world => .error reason world
      | .error fault world => .error fault world

/-- Runs a body as long as a test holds, for less than the given number of rounds. -/
def repeatWhile (test : Run Bool) (body : Run Unit) : Nat → Run Unit
  | 0 => stop .outOfRounds
  | rounds + 1 => do
      if ← test then
        body
        repeatWhile test body rounds
      else pure ()

end Run

/-- Calls a native function with as many arguments as it takes. -/
def Native.call (native : Native) (arguments : List Value) : Run Value :=
  if arguments.length = native.arity then
    match native.builtin with
    | .clock => .number <$> Run.readClock
    | .lastArgument => pure (arguments.getLastD .nil)
  else Run.stop (.fault .wrongArity)

end Treewalk
