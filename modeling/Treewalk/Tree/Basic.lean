import Treewalk.Token

/-!
Syntax trees. A node keeps the tokens that errors or lookups refer to: its operator, its name, or
the parenthesis that closes a call.
-/

namespace Treewalk

/-- The value of a literal expression. -/
inductive Constant where
  | nil
  | boolean (value : Bool)
  | number (value : Number)
  | string (value : String)
  deriving DecidableEq

inductive Expr where
  | constant (value : Constant)
  | group (inner : Expr)
  | unary (operator : Token) (operand : Expr)
  | binary (left : Expr) (operator : Token) (right : Expr)
  | logical (left : Expr) (operator : Token) (right : Expr)
  | var (name : Token)
  | assign (name : Token) (value : Expr)
  | call (callee : Expr) (closing : Token) (arguments : List Expr)

inductive Stmt where
  | expression (value : Expr)
  | print (value : Expr)
  | declare (name : Token) (initial : Option Expr)
  | block (body : List Stmt)
  | conditional (condition : Expr) (consequent : Stmt) (alternative : Option Stmt)
  | loop (condition : Expr) (body : Stmt)

abbrev Program := List Stmt

end Treewalk
