import Treewalk.Diagnostic
import Treewalk.Fault

/-!
The cursor of the parser and the steps from which every grammar rule is made. A cursor stands
before the tokens that are still to be read and never passes the one that ends the text.
-/

namespace Treewalk

/-- The tokens still to be read, the diagnostics so far, and whether the parser made any. -/
structure Cursor where
  rest : List Token
  diagnostics : Diagnostics
  failed : Bool := false

/-- Why a rule ends without a result: a grammar error at a token, or a fault. -/
inductive Interrupt where
  | abort (token : Token) (error : GrammarError)
  | fault (fault : Fault)

abbrev Parser := EStateM Interrupt Cursor

/-- Moves past the first token, unless it ends the text. -/
def Cursor.advance (cursor : Cursor) : Cursor :=
  match cursor.rest with
  | [] => cursor
  | token :: rest => if token.isEnd then cursor else { cursor with rest }

/-- Records an error of the grammar. -/
def Cursor.report (cursor : Cursor) (token : Token) (error : GrammarError) : Cursor :=
  { cursor with diagnostics := cursor.diagnostics.grammar token error, failed := true }

namespace Parser

/-- The token under the cursor. -/
def peek : Parser Token := fun cursor =>
  match cursor.rest with
  | [] => .error (.fault .pastLastToken) cursor
  | token :: _ => .ok token cursor

def advance : Parser Unit :=
  modify Cursor.advance

/-- Records an error and goes on. -/
def report (token : Token) (error : GrammarError) : Parser Unit :=
  modify (·.report token error)

/-- Ends the rule with an error at the token under the cursor. -/
def fail {α : Type} (error : GrammarError) : Parser α := do
  throw (.abort (← peek) error)

def exceeded {α : Type} : Parser α :=
  throw (.fault .boundExceeded)

/-- Whether the token under the cursor has the given kind. -/
def check (kind : TokenKind) : Parser Bool := do
  return (← peek).kind == kind

/-- Takes the token under the cursor if it has one of the given kinds. -/
def accept (kinds : List TokenKind) : Parser (Option Token) := do
  let token ← peek
  if kinds.contains token.kind then
    advance
    return some token
  else return none

/-- Takes the token under the cursor, which must have the given kind. -/
def expect (kind : TokenKind) (place : String) : Parser Token := do
  let token ← peek
  if token.kind == kind then
    advance
    return token
  else fail (.expectedToken kind place)

end Parser

end Treewalk
