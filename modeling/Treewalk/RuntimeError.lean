import Treewalk.Fault
import Treewalk.Token

/-!
Errors of running programs, and the other ways in which a run ends early.
-/

namespace Treewalk

/-- What a program did wrong. -/
inductive Mistake where
  | operandNotNumber
  | operandsNotNumbers
  | operandsNotNumbersOrStrings
  | divisionByZero
  | undefinedVariable (name : String)
  | duplicateVariable (name : String)
  | notCallable (type : String)
  | wrongArgumentCount (expected found : Nat)
  deriving DecidableEq

def Mistake.message : Mistake → String
  | operandNotNumber => "operand must be a number"
  | operandsNotNumbers => "operands must be numbers"
  | operandsNotNumbersOrStrings => "operands must be two numbers or two strings"
  | divisionByZero => "division by zero"
  | undefinedVariable name => "undefined variable '" ++ name ++ "'"
  | duplicateVariable name => "variable '" ++ name ++ "' is already defined in this scope"
  | notCallable type => "can't call a " ++ type
  | wrongArgumentCount expected found =>
      "expected " ++ toString expected ++ " arguments but got " ++ toString found

/-- Why a run fails: by a mistake on a line, or because the output takes no more. -/
inductive RuntimeError where
  | mistake (line : Line) (cause : Mistake)
  | outputClosed
  deriving DecidableEq

namespace RuntimeError

/-- The line of the program that failed, unless the failure came from outside. -/
def line? : RuntimeError → Option Line
  | mistake line _ => some line
  | outputClosed => none

def message : RuntimeError → String
  | mistake line cause => "line " ++ toString line ++ ": " ++ cause.message
  | outputClosed => "I/O error: closed"

/-- The texts of the error and of what lies behind it. -/
def causes (error : RuntimeError) : List String :=
  match error with
  | mistake _ _ => [error.message]
  | outputClosed => [error.message, "closed"]

end RuntimeError

/-- Why a run ends before its program does. -/
inductive Stop where
  | error (error : RuntimeError)
  | fault (fault : Fault)
  /-- A loop was allowed too few rounds. -/
  | outOfRounds
  deriving DecidableEq

/-- The stop at a token with a mistake. -/
def Token.blame (token : Token) (cause : Mistake) : Stop :=
  .error (.mistake token.line cause)

end Treewalk
