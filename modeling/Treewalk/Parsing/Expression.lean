import Treewalk.Parsing.Cursor
import Treewalk.Tree.Basic

/-!
Expressions, from the loosest level to the tightest: assignment, `or`, `and`, equality,
comparison, sum, product, sign, call and primary.

Each level is written over `nested`, the parser of the expressions inside parentheses, argument
lists and assigned values, and over a `bound` that no chain of operators on the remaining tokens
can exceed. `expression` ties the knot: whoever reads a nested expression has read a token
before it, so a bound above the number of remaining tokens is never used up.
-/

namespace Treewalk

/-- The constant for which a token stands, if it has one. A number or string token stands for its
literal, whichever of the two that is. -/
def Constant.ofToken? (token : Token) : Option Constant :=
  match token.kind with
  | .falseWord => some (.boolean false)
  | .trueWord => some (.boolean true)
  | .nilWord => some .nil
  | .number | .string =>
      match token.literal with
      | some (.number value) => some (.number value)
      | some (.string value) => some (.string value)
      | none => none
  | _ => none

/-- A call takes at most so many arguments. -/
def maximumArguments : Nat := 255

namespace Parser

def primary (nested : Parser Expr) : Parser Expr := do
  let token ← peek
  match token.kind, Constant.ofToken? token with
  | .identifier, _ =>
      advance
      return .var token
  | .leftParen, _ =>
      advance
      let inner ← nested
      let _ ← expect .rightParen "after expression"
      return .group inner
  | _, some value =>
      advance
      return .constant value
  | _, none => fail .expectedExpression

/-- Reports the argument that begins under the cursor if so many before it are enough. -/
def limitArguments (count : Nat) : Parser Unit := do
  if maximumArguments ≤ count then report (← peek) .tooManyArguments else pure ()

/-- The arguments of a call, one at least, after those already read, which stand in reverse. -/
def arguments (nested : Parser Expr) : Nat → List Expr → Parser (List Expr)
  | 0, _ => exceeded
  | bound + 1, done => do
      limitArguments done.length
      let argument ← nested
      match ← accept [.comma] with
      | some _ => arguments nested bound (argument :: done)
      | none => return (argument :: done).reverse

/-- The arguments of a call, up to its closing parenthesis. -/
def argumentList (nested : Parser Expr) (bound : Nat) : Parser (List Expr) := do
  if ← check .rightParen then return [] else arguments nested bound []

/-- The rest of a call whose opening parenthesis has been read. -/
def finishCall (nested : Parser Expr) (bound : Nat) (callee : Expr) : Parser Expr := do
  let arguments ← argumentList nested bound
  let closing ← expect .rightParen "after arguments"
  return .call callee closing arguments

/-- The calls that follow a callee. -/
def calls (nested : Parser Expr) : Nat → Expr → Parser Expr
  | 0, _ => exceeded
  | bound + 1, callee => do
      match ← accept [.leftParen] with
      | some _ => calls nested bound (← finishCall nested (bound + 1) callee)
      | none => return callee

def call (nested : Parser Expr) (bound : Nat) : Parser Expr := do
  calls nested bound (← primary nested)

def unary (nested : Parser Expr) : Nat → Parser Expr
  | 0 => exceeded
  | bound + 1 => do
      match ← accept [.bang, .minus] with
      | some operator => return .unary operator (← unary nested bound)
      | none => call nested (bound + 1)

/-- The operators and operands that follow a left operand, joined from the left. -/
def chain (operators : List TokenKind) (node : Expr → Token → Expr → Expr)
    (operand : Parser Expr) : Nat → Expr → Parser Expr
  | 0, _ => exceeded
  | bound + 1, left => do
      match ← accept operators with
      | some operator => chain operators node operand bound (node left operator (← operand))
      | none => return left

/-- Operands joined from the left by operators of one level. -/
def leftAssociative (operators : List TokenKind) (node : Expr → Token → Expr → Expr)
    (operand : Parser Expr) (bound : Nat) : Parser Expr := do
  chain operators node operand bound (← operand)

def product (nested : Parser Expr) (bound : Nat) : Parser Expr :=
  leftAssociative [.star, .slash] .binary (unary nested bound) bound

def sum (nested : Parser Expr) (bound : Nat) : Parser Expr :=
  leftAssociative [.plus, .minus] .binary (product nested bound) bound

def comparison (nested : Parser Expr) (bound : Nat) : Parser Expr :=
  leftAssociative [.greater, .greaterEqual, .less, .lessEqual] .binary (sum nested bound) bound

def equality (nested : Parser Expr) (bound : Nat) : Parser Expr :=
  leftAssociative [.equalEqual, .bangEqual] .binary (comparison nested bound) bound

def conjunction (nested : Parser Expr) (bound : Nat) : Parser Expr :=
  leftAssociative [.andWord] .logical (equality nested bound) bound

def disjunction (nested : Parser Expr) (bound : Nat) : Parser Expr :=
  leftAssociative [.orWord] .logical (conjunction nested bound) bound

/-- An assignment, or an expression without one. A target that is no variable is reported after
the assigned value has been read, and the value is dropped. -/
def assignment (nested : Parser Expr) (bound : Nat) : Parser Expr := do
  let target ← disjunction nested bound
  match ← accept [.equal] with
  | none => return target
  | some equals =>
      let value ← nested
      match target with
      | .var name => return .assign name value
      | _ =>
          report equals .invalidAssignmentTarget
          return target

def expression : Nat → Parser Expr
  | 0 => exceeded
  | bound + 1 => assignment (expression bound) (bound + 1)

end Parser

end Treewalk
