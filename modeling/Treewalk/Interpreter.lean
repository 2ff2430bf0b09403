import Treewalk.Evaluation.Statement
import Treewalk.Lexing
import Treewalk.Parsing.Program

/-!
Interpreters. An interpreter has a vocabulary and a world of its own, and both last from one
program to the next: what a program defines is visible to the programs after it. A text with
lexical errors is not parsed, and one with any error is not executed.
-/

namespace Treewalk

/-- Why an interpreter does not finish a text. -/
inductive Failure where
  | rejected (diagnostics : Diagnostics)
  | stopped (reason : Stop)

namespace Failure

def message : Failure → String
  | rejected diagnostics => diagnostics.message
  | stopped (.error error) => "runtime error: " ++ error.message
  | stopped (.fault _) => "internal error"
  | stopped .outOfRounds => "too many rounds of a loop"

/-- The exit code by which a process reports the failure. -/
def exitCode : Failure → UInt8
  | rejected _ => 65
  | stopped (.error _) => 70
  | stopped _ => 101

/-- The texts of what lies behind the failure, nearest first. -/
def causes : Failure → List String
  | rejected diagnostics => [diagnostics.message]
  | stopped (.error error) => error.causes
  | stopped _ => []

end Failure

structure Interpreter where
  vocabulary : Vocabulary
  world : World
  /-- Whether the value of an expression that ends a program is printed. -/
  interactive : Bool := false

namespace Interpreter

/-- The rounds that a loop is allowed when a program is executed: more than any loop can run. -/
def roundLimit : Nat := Nat.pow 2 62

/-- A fresh interpreter, whose names are kept in the given table. Its only variable is the native
function that reads the clock. -/
def new (table : Nat) (output : Output) (clock : Clock) : Interpreter :=
  let (name, vocabulary) := (Vocabulary.new table).symbol "clock"
  let store := Store.new.defineGlobal name (.native ⟨name, 0, .clock⟩)
  { vocabulary, world := ⟨store, output, clock⟩ }

/-- Reads a program. Only the vocabulary of the interpreter changes. -/
def parse (interpreter : Interpreter) (source : String) : Except Failure Program × Interpreter :=
  let lexed := Lexed.ofText source interpreter.vocabulary {}
  let interpreter := { interpreter with vocabulary := lexed.vocabulary }
  if lexed.diagnostics.isEmpty then
    match Parsed.ofTokens lexed.tokens lexed.diagnostics with
    | .error fault => (.error (.stopped (.fault fault)), interpreter)
    | .ok parsed =>
        match parsed.program with
        | some program => (.ok program, interpreter)
        | none => (.error (.rejected parsed.diagnostics), interpreter)
  else (.error (.rejected lexed.diagnostics), interpreter)

/-- Executes a program, which may have been read by another interpreter. -/
def execute (rounds : Nat) (interpreter : Interpreter) (program : Program) :
    Except Failure Unit × Interpreter :=
  match program.run rounds interpreter.interactive interpreter.world with
  | .ok () world => (.ok (), { interpreter with world })
  | .error reason world => (.error (.stopped reason), { interpreter with world })

/-- Reads and executes a program. -/
def run (rounds : Nat) (interpreter : Interpreter) (source : String) :
    Except Failure Unit × Interpreter :=
  match interpreter.parse source with
  | (.ok program, interpreter) => interpreter.execute rounds program
  | (.error failure, interpreter) => (.error failure, interpreter)

/-- The bytes written so far. -/
def written (interpreter : Interpreter) : ByteArray :=
  interpreter.world.output.written

end Interpreter

end Treewalk
