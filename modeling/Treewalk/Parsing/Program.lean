import Treewalk.Parsing.Statement

/-!
Programs. A declaration that ends with an error is recorded and left out, and reading goes on at
the next place where a statement is likely to begin, so that one reading finds the errors of all
declarations. A program with any error has no tree.
-/

namespace Treewalk

/-- The tokens from the next likely beginning of a statement: after a semicolon, before a word
that starts statements, or at the end of the text. -/
def nextBeginning (previous : Token) : List Token → List Token
  | [] => []
  | token :: rest =>
      if token.isEnd || previous.kind == .semicolon || token.kind.startsStatement then
        token :: rest
      else nextBeginning token rest

/-- Leaves a declaration in which an error was found. At least one token is left behind, unless
the text has ended. -/
def resume : List Token → List Token
  | [] => []
  | token :: rest => if token.isEnd then token :: rest else nextBeginning token rest

namespace Parser

/-- The declarations of a program, after those already read, which stand in reverse. -/
def declarations (bound : Nat) : Nat → List Stmt → Cursor → Except Fault (List Stmt × Cursor)
  | 0, _, _ => .error .boundExceeded
  | rounds + 1, done, cursor =>
      match cursor.rest with
      | [] => .error .pastLastToken
      | token :: _ =>
          if token.isEnd then .ok (done.reverse, cursor)
          else
            match declaration (statement bound) bound cursor with
            | .ok stmt cursor => declarations bound rounds (stmt :: done) cursor
            | .error (.fault fault) _ => .error fault
            | .error (.abort token error) cursor =>
                let cursor := cursor.report token error
                declarations bound rounds done { cursor with rest := resume cursor.rest }

end Parser

/-- What a reading of tokens yields: a program, if nothing was wrong, and the diagnostics. -/
structure Parsed where
  program : Option Program
  diagnostics : Diagnostics

/-- Reads the tokens up to the first that ends the text. -/
def Parsed.ofTokens (tokens : List Token) (diagnostics : Diagnostics) : Except Fault Parsed := do
  let bound := tokens.length + 1
  let (program, cursor) ← Parser.declarations bound bound [] ⟨tokens, diagnostics, false⟩
  return ⟨if cursor.failed then none else some program, cursor.diagnostics⟩

end Treewalk
