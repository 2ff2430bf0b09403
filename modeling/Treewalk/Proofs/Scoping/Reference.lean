import Std.Data.ExtHashMap
import Treewalk.Interpreter

/-!
The documented meaning of programs, without symbols, frames or a pool: variables are found by the
spellings of their names in a list of finite maps. A block puts an empty map in front and drops it
at its end, a declaration enters its name in the first map unless it is there already, and a name
that is read or assigned is the one in the first map that holds it.
-/

namespace Treewalk.Reference

abbrev Scope := Std.ExtHashMap String Value

/-- The scopes that are open, from the innermost to the global one. -/
abbrev Environment := List Scope

namespace Environment

def lookup : Environment → String → Option Value
  | [], _ => none
  | scope :: outer, name =>
      match scope[name]? with
      | some value => some value
      | none => lookup outer name

def assign : Environment → String → Value → Option Environment
  | [], _, _ => none
  | scope :: outer, name, value =>
      if name ∈ scope then some (scope.insert name value :: outer)
      else (assign outer name value).map (scope :: ·)

def define : Environment → String → Value → Option Environment
  | [], _, _ => none
  | scope :: outer, name, value =>
      if name ∈ scope then none else some (scope.insert name value :: outer)

end Environment

structure World where
  environment : Environment
  output : Output
  clock : Clock

abbrev Run := EStateM Stop World

namespace Run

def stop {α : Type} (reason : Stop) : Run α :=
  throw reason

def ofExcept {α : Type} : Except Stop α → Run α
  | .ok value => pure value
  | .error reason => stop reason

def lookup (name : Token) : Run Value := fun world =>
  match world.environment.lookup name.lexeme.spelling with
  | some value => .ok value world
  | none => .error (name.blame (.undefinedVariable name.lexeme.spelling)) world

def assign (name : Token) (value : Value) : Run Unit := fun world =>
  match world.environment.assign name.lexeme.spelling value with
  | some environment => .ok () { world with environment }
  | none => .error (name.blame (.undefinedVariable name.lexeme.spelling)) world

def define (name : Token) (value : Value) : Run Unit := fun world =>
  match world.environment.define name.lexeme.spelling value with
  | some environment => .ok () { world with environment }
  | none => .error (name.blame (.duplicateVariable name.lexeme.spelling)) world

def writeLine (value : Value) : Run Unit := fun world =>
  match world.output.writeLine value.text with
  | (true, output) => .ok () { world with output }
  | (false, output) => .error (.error .outputClosed) { world with output }

def readClock : Run Number := fun world =>
  let clock := world.clock
  .ok (clock.showing clock.readings)
    { world with clock := { clock with readings := clock.readings + 1 } }

def leave (world : World) : World :=
  { world with environment := world.environment.tail }

/-- Runs in a new scope, which is dropped whether or not the run stops early. -/
def inScope (body : Run Unit) : Run Unit := fun world =>
  match body { world with environment := ∅ :: world.environment } with
  | .ok () world => .ok () (leave world)
  | .error reason world => .error reason (leave world)

def repeatWhile (test : Run Bool) (body : Run Unit) : Nat → Run Unit
  | 0 => stop .outOfRounds
  | rounds + 1 => do
      if ← test then
        body
        repeatWhile test body rounds
      else pure ()

def callNative (native : Native) (arguments : List Value) : Run Value :=
  match native.builtin with
  | .clock => .number <$> readClock
  | .lastArgument => pure (arguments.getLastD .nil)

def call (callee : Value) (closing : Token) (arguments : List Value) : Run Value :=
  match callee with
  | .native function =>
      if arguments.length = function.arity then callNative function arguments
      else stop (closing.blame (.wrongArgumentCount function.arity arguments.length))
  | _ => stop (closing.blame (.notCallable callee.typeName))

end Run

mutual

def evaluate : Expr → Run Value
  | .constant value => pure (Value.ofConstant value)
  | .group inner => evaluate inner
  | .unary operator operand => do
      let operand ← evaluate operand
      Run.ofExcept (operand.applySign operator)
  | .binary left operator right => do
      let left ← evaluate left
      let right ← evaluate right
      Run.ofExcept (left.applyOperator operator right)
  | .logical left operator right => do
      let left ← evaluate left
      if left.decides operator then return left else evaluate right
  | .var name => Run.lookup name
  | .assign name value => do
      let value ← evaluate value
      Run.assign name value
      return value
  | .call callee closing arguments => do
      let callee ← evaluate callee
      let arguments ← evaluateRow arguments
      Run.call callee closing arguments

def evaluateRow : List Expr → Run (List Value)
  | [] => return []
  | first :: rest => do
      let first ← evaluate first
      let rest ← evaluateRow rest
      return first :: rest

end

def holds (condition : Expr) : Run Bool := do
  return (← evaluate condition).isTruthy

mutual

def execute (rounds : Nat) : Stmt → Run Unit
  | .expression value => do
      let _ ← evaluate value
  | .print value => do Run.writeLine (← evaluate value)
  | .declare name none => Run.define name .nil
  | .declare name (some initial) => do Run.define name (← evaluate initial)
  | .block body => Run.inScope (executeRow rounds body)
  | .conditional condition consequent none => do
      if ← holds condition then execute rounds consequent else pure ()
  | .conditional condition consequent (some alternative) => do
      if ← holds condition then execute rounds consequent else execute rounds alternative
  | .loop condition body => Run.repeatWhile (holds condition) (execute rounds body) rounds

def executeRow (rounds : Nat) : List Stmt → Run Unit
  | [] => pure ()
  | first :: rest => do
      execute rounds first
      executeRow rounds rest

end

/-- The last statement of a program: with `echo`, an expression is printed. -/
def conclude (rounds : Nat) (echo : Bool) (last : Stmt) : Run Unit :=
  match echo, last with
  | true, .expression value => do Run.writeLine (← evaluate value)
  | _, _ => execute rounds last

def runProgram (rounds : Nat) (echo : Bool) : Program → Run Unit
  | [] => pure ()
  | [last] => conclude rounds echo last
  | first :: second :: rest => do
      execute rounds first
      runProgram rounds echo (second :: rest)

/-- The program of a text, read with a vocabulary that has never read another. -/
def read (source : String) : Except Failure Program :=
  let lexed := Lexed.ofText source (Vocabulary.new 0) {}
  if lexed.diagnostics.isEmpty then
    match Parsed.ofTokens lexed.tokens lexed.diagnostics with
    | .error fault => .error (.stopped (.fault fault))
    | .ok parsed =>
        match parsed.program with
        | some program => .ok program
        | none => .error (.rejected parsed.diagnostics)
  else .error (.rejected lexed.diagnostics)

def run (rounds : Nat) (echo : Bool) (source : String) (world : World) :
    Except Failure Unit × World :=
  match read source with
  | .error failure => (.error failure, world)
  | .ok program =>
      match runProgram rounds echo program world with
      | .ok () world => (.ok (), world)
      | .error reason world => (.error (.stopped reason), world)

/-- The only variable at first is the native function that reads the clock. -/
def World.new (native : Native) (output : Output) (clock : Clock) : World :=
  ⟨[(∅ : Scope).insert native.name.spelling (.native native)], output, clock⟩

end Treewalk.Reference
