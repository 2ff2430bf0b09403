import Treewalk.Token

/-!
Diagnostics: what is wrong with a text or with its tokens, collected in the order of discovery.
Neither kind of error stops the reading of a program; a program with any diagnostic is not run.
-/

namespace Treewalk

/-- What can be wrong with the characters of a text. -/
inductive LexicalError where
  | unexpectedCharacter (character : Char)
  | unterminatedString
  | badNumber (text : String)
  deriving DecidableEq

def LexicalError.message : LexicalError → String
  | unexpectedCharacter character => "unexpected character '" ++ character.toString ++ "'"
  | unterminatedString => "unterminated string"
  | badNumber text => "cannot parse number literal: " ++ text

/-- What can be wrong with the order of the tokens. The first three end the declaration in which
they occur, the last two do not. -/
inductive GrammarError where
  | expectedToken (kind : TokenKind) (place : String)
  | expectedExpression
  | expectedVariableName
  | invalidAssignmentTarget
  | tooManyArguments
  deriving DecidableEq

def GrammarError.message : GrammarError → String
  | expectedToken kind place => "expected '" ++ kind.text ++ "' " ++ place
  | expectedExpression => "expected expression"
  | expectedVariableName => "expected variable name"
  | invalidAssignmentTarget => "invalid assignment target"
  | tooManyArguments => "can't have more than 255 arguments"

inductive Complaint where
  | lexical (error : LexicalError)
  | grammar (error : GrammarError)
  deriving DecidableEq

def Complaint.stage : Complaint → String
  | lexical _ => "lexical error"
  | grammar _ => "syntax error"

def Complaint.message : Complaint → String
  | lexical error => error.message
  | grammar error => error.message

/-- A complaint and where it applies. The location completes the line: it is empty, or it names
the token or the end of the text. -/
structure Diagnostic where
  line : Line
  location : String
  complaint : Complaint
  deriving DecidableEq

def Diagnostic.message (diagnostic : Diagnostic) : String :=
  diagnostic.complaint.stage ++ ": line " ++ toString diagnostic.line ++ diagnostic.location ++
    ": " ++ diagnostic.complaint.message

/-- The location of a token within its line. -/
def Token.location (token : Token) : String :=
  if token.isEnd then " at end" else " at '" ++ token.lexeme.spelling ++ "'"

/-- The diagnostics of one text, oldest first. -/
structure Diagnostics where
  entries : List Diagnostic := []
  deriving DecidableEq

namespace Diagnostics

def report (diagnostics : Diagnostics) (diagnostic : Diagnostic) : Diagnostics :=
  ⟨diagnostics.entries ++ [diagnostic]⟩

/-- Records an error of the characters on a line. -/
def lexical (diagnostics : Diagnostics) (line : Line) (error : LexicalError) : Diagnostics :=
  diagnostics.report ⟨line, "", .lexical error⟩

/-- Records an error of the grammar at a token. -/
def grammar (diagnostics : Diagnostics) (token : Token) (error : GrammarError) : Diagnostics :=
  diagnostics.report ⟨token.line, token.location, .grammar error⟩

def size (diagnostics : Diagnostics) : Nat :=
  diagnostics.entries.length

def isEmpty (diagnostics : Diagnostics) : Bool :=
  diagnostics.entries.isEmpty

/-- The messages, one on each line. -/
def message (diagnostics : Diagnostics) : String :=
  String.intercalate "\n" (diagnostics.entries.map Diagnostic.message)

end Diagnostics

end Treewalk
