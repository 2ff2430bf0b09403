import Treewalk.Parsing.Expression

/-!
Statements and declarations. A declaration of a variable may stand in a program or a block, but
not as the only statement of a conditional or loop.
-/

namespace Treewalk

/-- A loop with an increment that follows its body. Without a condition it does not end by
itself; the initial statement, if there is one, is enclosed in a block with the loop. -/
def Stmt.counting (initial : Option Stmt) (condition increment : Option Expr) (body : Stmt) :
    Stmt :=
  let body :=
    match increment with
    | some increment => .block [body, .expression increment]
    | none => body
  let loop : Stmt := .loop (condition.getD (.constant (.boolean true))) body
  match initial with
  | some initial => .block [initial, loop]
  | none => loop

namespace Parser

def expressionStatement (bound : Nat) : Parser Stmt := do
  let value ← expression bound
  let _ ← expect .semicolon "after expression"
  return .expression value

def printStatement (bound : Nat) : Parser Stmt := do
  let value ← expression bound
  let _ ← expect .semicolon "after value"
  return .print value

/-- The name of a variable that is declared. -/
def declaredName : Parser Token := do
  match ← accept [.identifier] with
  | some name => return name
  | none => fail .expectedVariableName

/-- The value that an equals sign gives to a declared variable. -/
def initialValue (bound : Nat) : Parser (Option Expr) := do
  match ← accept [.equal] with
  | some _ => some <$> expression bound
  | none => return none

/-- The declaration of a variable, after its keyword. -/
def declareVariable (bound : Nat) : Parser Stmt := do
  let name ← declaredName
  let initial ← initialValue bound
  let _ ← expect .semicolon "after variable declaration"
  return .declare name initial

/-- A declaration, or a statement read by `nested`. -/
def declaration (nested : Parser Stmt) (bound : Nat) : Parser Stmt := do
  match ← accept [.varWord] with
  | some _ => declareVariable bound
  | none => nested

/-- The declarations of a block, after those already read, which stand in reverse. -/
def blockBody (item : Parser Stmt) : Nat → List Stmt → Parser (List Stmt)
  | 0, _ => exceeded
  | bound + 1, done => do
      let token ← peek
      if token.kind == .rightBrace || token.isEnd then return done.reverse
      else blockBody item bound ((← item) :: done)

def block (nested : Parser Stmt) (bound : Nat) : Parser Stmt := do
  let body ← blockBody (declaration nested bound) bound []
  let _ ← expect .rightBrace "after block"
  return .block body

/-- An alternative belongs to the nearest conditional that can take it. -/
def alternative (nested : Parser Stmt) : Parser (Option Stmt) := do
  match ← accept [.elseWord] with
  | some _ => some <$> nested
  | none => return none

def conditional (nested : Parser Stmt) (bound : Nat) : Parser Stmt := do
  let _ ← expect .leftParen "after 'if'"
  let condition ← expression bound
  let _ ← expect .rightParen "after if condition"
  let consequent ← nested
  return .conditional condition consequent (← alternative nested)

def whileLoop (nested : Parser Stmt) (bound : Nat) : Parser Stmt := do
  let _ ← expect .leftParen "after 'while'"
  let condition ← expression bound
  let _ ← expect .rightParen "after condition"
  return .loop condition (← nested)

/-- The first clause of a counting loop, with its semicolon. -/
def initialClause (bound : Nat) : Parser (Option Stmt) := do
  match ← accept [.semicolon] with
  | some _ => return none
  | none =>
      match ← accept [.varWord] with
      | some _ => some <$> declareVariable bound
      | none => some <$> expressionStatement bound

/-- An expression that is left out if the given kind of token stands in its place. -/
def optionalExpression (bound : Nat) (closing : TokenKind) : Parser (Option Expr) := do
  if ← check closing then return none else some <$> expression bound

def forLoop (nested : Parser Stmt) (bound : Nat) : Parser Stmt := do
  let _ ← expect .leftParen "after 'for'"
  let initial ← initialClause bound
  let condition ← optionalExpression bound .semicolon
  let _ ← expect .semicolon "after loop condition"
  let increment ← optionalExpression bound .rightParen
  let _ ← expect .rightParen "after for clauses"
  return .counting initial condition increment (← nested)

/-- A statement whose inner statements are read by `nested`. -/
def statementOver (nested : Parser Stmt) (bound : Nat) : Parser Stmt := do
  match (← peek).kind with
  | .printWord => advance; printStatement bound
  | .leftBrace => advance; block nested bound
  | .ifWord => advance; conditional nested bound
  | .whileWord => advance; whileLoop nested bound
  | .forWord => advance; forLoop nested bound
  | _ => expressionStatement bound

/-- An inner statement follows a token of the outer one, so a bound above the number of remaining
tokens is never used up. -/
def statement : Nat → Parser Stmt
  | 0 => exceeded
  | bound + 1 => statementOver (statement bound) (bound + 1)

end Parser

end Treewalk
