import Treewalk.RuntimeError
import Treewalk.Value

/-!
The operators on values. An operator token other than those of its kind of node would be a fault
of the parser in a binary node; a sign or connective falls back on the last of its kind.
-/

namespace Treewalk

/-- A minus sign negates numbers; any other sign is the logical negation. -/
def Value.applySign (operator : Token) (operand : Value) : Except Stop Value :=
  match operator.kind with
  | .minus =>
      match operand with
      | .number value => .ok (.number value.neg)
      | _ => .error (operator.blame .operandNotNumber)
  | _ => .ok (.boolean !operand.isTruthy)

/-- Numbers are added and strings joined. -/
def Value.sum (operator : Token) : Value → Value → Except Stop Value
  | .number left, .number right => .ok (.number (left.add right))
  | .string left, .string right => .ok (.string (left ++ right))
  | _, _ => .error (operator.blame .operandsNotNumbersOrStrings)

/-- The operators that take numbers only. -/
def Number.applyOperator (operator : Token) (left right : Number) : Except Stop Value :=
  match operator.kind with
  | .minus => .ok (.number (left.sub right))
  | .star => .ok (.number (left.mul right))
  | .slash =>
      if right.equal Number.zero then .error (operator.blame .divisionByZero)
      else .ok (.number (left.div right))
  | .greater => .ok (.boolean (right.less left))
  | .greaterEqual => .ok (.boolean (right.lessOrEqual left))
  | .less => .ok (.boolean (left.less right))
  | .lessEqual => .ok (.boolean (left.lessOrEqual right))
  | _ => .error (.fault .unknownOperator)

/-- All values can be compared for equality; the other operators are particular. -/
def Value.applyOperator (operator : Token) (left right : Value) : Except Stop Value :=
  match operator.kind with
  | .plus => Value.sum operator left right
  | .equalEqual => .ok (.boolean (left.same right))
  | .bangEqual => .ok (.boolean !(left.same right))
  | _ =>
      match left, right with
      | .number left, .number right => Number.applyOperator operator left right
      | _, _ => .error (operator.blame .operandsNotNumbers)

/-- Whether the left operand of a connective is its value: a true one for `or`, a false one for
`and`. -/
def Value.decides (operator : Token) (left : Value) : Bool :=
  match operator.kind with
  | .orWord => left.isTruthy
  | _ => !left.isTruthy

end Treewalk
