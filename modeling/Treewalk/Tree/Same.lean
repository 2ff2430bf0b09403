import Treewalk.Tree.Basic

/-!
Sameness of trees: one shape, the same tokens and equal constants in every node. Numbers compare
as numbers and tokens by their symbols, so trees made in different tables of names differ as soon
as they hold a token.
-/

namespace Treewalk

def Constant.same : Constant → Constant → Bool
  | nil, nil => true
  | boolean left, boolean right => left == right
  | number left, number right => left.equal right
  | string left, string right => left == right
  | _, _ => false

mutual

def Expr.same : Expr → Expr → Bool
  | .constant left, .constant right => left.same right
  | .group left, .group right => left.same right
  | .unary operator left, .unary other right => operator.same other && left.same right
  | .binary left operator right, .binary left' other right' =>
      left.same left' && operator.same other && right.same right'
  | .logical left operator right, .logical left' other right' =>
      left.same left' && operator.same other && right.same right'
  | .var left, .var right => left.same right
  | .assign name left, .assign other right => name.same other && left.same right
  | .call callee closing arguments, .call callee' closing' arguments' =>
      callee.same callee' && closing.same closing' && Expr.sameRow arguments arguments'
  | _, _ => false

def Expr.sameRow : List Expr → List Expr → Bool
  | [], [] => true
  | left :: lefts, right :: rights => left.same right && Expr.sameRow lefts rights
  | _, _ => false

end

mutual

def Stmt.same : Stmt → Stmt → Bool
  | .expression left, .expression right => left.same right
  | .print left, .print right => left.same right
  | .declare name none, .declare other none => name.same other
  | .declare name (some left), .declare other (some right) =>
      name.same other && left.same right
  | .block left, .block right => Stmt.sameRow left right
  | .conditional left consequent none, .conditional right consequent' none =>
      left.same right && consequent.same consequent'
  | .conditional left consequent (some alternative),
      .conditional right consequent' (some alternative') =>
      left.same right && consequent.same consequent' && alternative.same alternative'
  | .loop left body, .loop right body' => left.same right && body.same body'
  | _, _ => false

def Stmt.sameRow : List Stmt → List Stmt → Bool
  | [], [] => true
  | left :: lefts, right :: rights => left.same right && Stmt.sameRow lefts rights
  | _, _ => false

end

end Treewalk
