import Treewalk.Tree.Basic

/-!
The text of a tree: every node in parentheses, its head first. Strings are quoted as they are,
without escapes.
-/

namespace Treewalk

def Constant.text : Constant → String
  | nil => "nil"
  | boolean value => if value then "true" else "false"
  | number value => value.text
  | string value => "\"" ++ value ++ "\""

mutual

def Expr.text : Expr → String
  | .constant value => value.text
  | .group inner => "(group " ++ inner.text ++ ")"
  | .unary operator operand => "(" ++ operator.lexeme.spelling ++ " " ++ operand.text ++ ")"
  | .binary left operator right =>
      "(" ++ operator.lexeme.spelling ++ " " ++ left.text ++ " " ++ right.text ++ ")"
  | .logical left operator right =>
      "(" ++ operator.lexeme.spelling ++ " " ++ left.text ++ " " ++ right.text ++ ")"
  | .var name => name.lexeme.spelling
  | .assign name value => "(= " ++ name.lexeme.spelling ++ " " ++ value.text ++ ")"
  | .call callee _ arguments => "(call " ++ callee.text ++ Expr.rowText arguments ++ ")"

/-- The texts of a row of expressions, each after a blank. -/
def Expr.rowText : List Expr → String
  | [] => ""
  | first :: rest => " " ++ first.text ++ Expr.rowText rest

end

mutual

def Stmt.text : Stmt → String
  | .expression value => "(; " ++ value.text ++ ")"
  | .print value => "(print " ++ value.text ++ ")"
  | .declare name none => "(var " ++ name.lexeme.spelling ++ ")"
  | .declare name (some initial) =>
      "(var " ++ name.lexeme.spelling ++ " " ++ initial.text ++ ")"
  | .block body => "(block" ++ Stmt.rowText body ++ ")"
  | .conditional condition consequent none =>
      "(if " ++ condition.text ++ " " ++ consequent.text ++ ")"
  | .conditional condition consequent (some alternative) =>
      "(if " ++ condition.text ++ " " ++ consequent.text ++ " " ++ alternative.text ++ ")"
  | .loop condition body => "(while " ++ condition.text ++ " " ++ body.text ++ ")"

/-- The texts of a row of statements, each after a blank. -/
def Stmt.rowText : List Stmt → String
  | [] => ""
  | first :: rest => " " ++ first.text ++ Stmt.rowText rest

end

end Treewalk
