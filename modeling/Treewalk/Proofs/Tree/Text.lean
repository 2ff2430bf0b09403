import Treewalk.Proofs.Tree.Nest

/-!
Trees as nests: the text of a tree is that of its nest.
-/

namespace Treewalk

def Constant.nest : Constant → Nest
  | nil => .word "nil"
  | boolean true => .word "true"
  | boolean false => .word "false"
  | number value => .word value.text
  | string value => .quoted value

mutual

def Expr.nest : Expr → Nest
  | .constant value => value.nest
  | .group inner => .node "group" [inner.nest]
  | .unary operator operand => .node operator.lexeme.spelling [operand.nest]
  | .binary left operator right => .node operator.lexeme.spelling [left.nest, right.nest]
  | .logical left operator right => .node operator.lexeme.spelling [left.nest, right.nest]
  | .var name => .word name.lexeme.spelling
  | .assign name value => .node "=" [.word name.lexeme.spelling, value.nest]
  | .call callee _ arguments => .node "call" (callee.nest :: Expr.nestRow arguments)

def Expr.nestRow : List Expr → List Nest
  | [] => []
  | first :: rest => first.nest :: Expr.nestRow rest

end

mutual

def Stmt.nest : Stmt → Nest
  | .expression value => .node ";" [value.nest]
  | .print value => .node "print" [value.nest]
  | .declare name none => .node "var" [.word name.lexeme.spelling]
  | .declare name (some initial) => .node "var" [.word name.lexeme.spelling, initial.nest]
  | .block body => .node "block" (Stmt.nestRow body)
  | .conditional condition consequent none => .node "if" [condition.nest, consequent.nest]
  | .conditional condition consequent (some alternative) =>
      .node "if" [condition.nest, consequent.nest, alternative.nest]
  | .loop condition body => .node "while" [condition.nest, body.nest]

def Stmt.nestRow : List Stmt → List Nest
  | [] => []
  | first :: rest => first.nest :: Stmt.nestRow rest

end

theorem Constant.toList_text (value : Constant) : value.text.toList = value.nest.chars := by
  match value with
  | nil | boolean true | boolean false | number _ => rfl
  | string value => simp [text, nest, Nest.chars]

mutual

theorem Expr.toList_text (value : Expr) : value.text.toList = value.nest.chars := by
  match value with
  | .constant value => rw [text, nest, value.toList_text]
  | .group inner => simp [text, nest, Nest.chars, Nest.charsRow, inner.toList_text]
  | .unary operator operand =>
      simp [text, nest, Nest.chars, Nest.charsRow, operand.toList_text]
  | .binary left operator right | .logical left operator right =>
      simp [text, nest, Nest.chars, Nest.charsRow, left.toList_text, right.toList_text]
  | .var name => rfl
  | .assign name value =>
      simp [text, nest, Nest.chars, Nest.charsRow, value.toList_text]
  | .call callee _ arguments =>
      simp [text, nest, Nest.chars, Nest.charsRow, callee.toList_text, rowText_toList arguments]

theorem Expr.rowText_toList (row : List Expr) :
    (rowText row).toList = Nest.charsRow (nestRow row) := by
  match row with
  | [] => rfl
  | first :: rest =>
      simp [rowText, nestRow, Nest.charsRow, first.toList_text, rowText_toList rest]

end

mutual

theorem Stmt.toList_text (statement : Stmt) : statement.text.toList = statement.nest.chars := by
  match statement with
  | .expression value | .print value | .declare _ (some value) =>
      simp [text, nest, Nest.chars, Nest.charsRow, value.toList_text]
  | .declare _ none => simp [text, nest, Nest.chars, Nest.charsRow]
  | .block body => simp [text, nest, Nest.chars, rowText_toList body]
  | .conditional condition consequent none | .loop condition consequent =>
      simp [text, nest, Nest.chars, Nest.charsRow, condition.toList_text, consequent.toList_text]
  | .conditional condition consequent (some alternative) =>
      simp [text, nest, Nest.chars, Nest.charsRow, condition.toList_text, consequent.toList_text,
        alternative.toList_text]

theorem Stmt.rowText_toList (row : List Stmt) :
    (rowText row).toList = Nest.charsRow (nestRow row) := by
  match row with
  | [] => rfl
  | first :: rest =>
      simp [rowText, nestRow, Nest.charsRow, first.toList_text, rowText_toList rest]

end

end Treewalk
