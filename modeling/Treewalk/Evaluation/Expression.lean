import Treewalk.Evaluation.Basic
import Treewalk.Evaluation.Operator

/-!
The values of expressions. Operands and arguments are evaluated from left to right, each once.
-/

namespace Treewalk

/-- Calls what a callee evaluated to. A mistake is placed on the line of the closing
parenthesis. -/
def Value.call (callee : Value) (closing : Token) (arguments : List Value) : Run Value :=
  match callee with
  | .native function =>
      if arguments.length = function.arity then function.call arguments
      else Run.stop (closing.blame (.wrongArgumentCount function.arity arguments.length))
  | _ => Run.stop (closing.blame (.notCallable callee.typeName))

mutual

def Expr.evaluate (frame : FrameId) : Expr → Run Value
  | .constant value => pure (Value.ofConstant value)
  | .group inner => inner.evaluate frame
  | .unary operator operand => do
      let operand ← operand.evaluate frame
      Run.ofExcept (operand.applySign operator)
  | .binary left operator right => do
      let left ← left.evaluate frame
      let right ← right.evaluate frame
      Run.ofExcept (left.applyOperator operator right)
  | .logical left operator right => do
      let left ← left.evaluate frame
      if left.decides operator then return left else right.evaluate frame
  | .var name => Run.lookup frame name
  | .assign name value => do
      let value ← value.evaluate frame
      Run.assign frame name value
      return value
  | .call callee closing arguments => do
      let callee ← callee.evaluate frame
      let arguments ← Expr.evaluateRow frame arguments
      callee.call closing arguments

def Expr.evaluateRow (frame : FrameId) : List Expr → Run (List Value)
  | [] => return []
  | first :: rest => do
      let first ← first.evaluate frame
      let rest ← Expr.evaluateRow frame rest
      return first :: rest

end

/-- Whether a condition holds. -/
def Expr.holds (frame : FrameId) (condition : Expr) : Run Bool := do
  return (← condition.evaluate frame).isTruthy

end Treewalk
