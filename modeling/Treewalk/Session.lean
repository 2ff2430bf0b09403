import Treewalk.Interpreter

/-!
Sessions: several interpreters that are used in turns, and the programs they have read, which any
of them may execute.
-/

namespace Treewalk

structure Session where
  interpreters : List Interpreter
  programs : List (String × Program) := []

/-- What can be asked of an interpreter in a session. -/
inductive Request where
  | run (source : String)
  | parse (source : String) (name : String)
  | execute (name : String)
  | setInteractive (value : Bool)

/-- What a request yields. -/
inductive Response where
  | done
  | read (program : Program)
  | failed (failure : Failure)

def Response.ofResult : Except Failure Unit → Response
  | .ok () => done
  | .error failure => failed failure

namespace Session

/-- The program last read under a name. -/
def program? (session : Session) (name : String) : Option Program :=
  (session.programs.find? (·.1 == name)).map (·.2)

/-- The answer of an interpreter to a request, with the interpreter afterwards and the programs
that it adds. A program that was never read cannot be asked for. -/
def answer (session : Session) (rounds : Nat) (interpreter : Interpreter) :
    Request → Option (Response × Interpreter × List (String × Program))
  | .run source =>
      let (result, interpreter) := interpreter.run rounds source
      some (.ofResult result, interpreter, [])
  | .parse source name =>
      match interpreter.parse source with
      | (.ok program, interpreter) => some (.read program, interpreter, [(name, program)])
      | (.error failure, interpreter) => some (.failed failure, interpreter, [])
  | .execute name =>
      (session.program? name).map fun program =>
        let (result, interpreter) := interpreter.execute rounds program
        (.ofResult result, interpreter, [])
  | .setInteractive value => some (.done, { interpreter with interactive := value }, [])

/-- Asks one of the interpreters. Returns the bytes that it wrote meanwhile and its answer, unless
there is no such interpreter or program. -/
def step (session : Session) (rounds : Nat) (number : Nat) (request : Request) :
    Option ((ByteArray × Response) × Session) := do
  let before ← session.interpreters[number]?
  let (response, after, programs) ← session.answer rounds before request
  let output := after.written.extract before.written.size after.written.size
  return ((output, response),
    ⟨session.interpreters.set number after, programs ++ session.programs⟩)

end Session

end Treewalk
