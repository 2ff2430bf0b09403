import Treewalk.Number.Text
import Treewalk.Symbol

/-!
Tokens: the words of a program, each with the symbol of its exact text and the line on which that
text ends.
-/

namespace Treewalk

/-- A line number, counted from one in thirty-two bits. -/
abbrev Line := UInt32

inductive TokenKind where
  | leftParen | rightParen | leftBrace | rightBrace
  | comma | dot | minus | plus | semicolon | slash | star
  | bang | bangEqual | equal | equalEqual | greater | greaterEqual | less | lessEqual
  | identifier | string | number
  | andWord | classWord | elseWord | falseWord | forWord | funWord | ifWord | nilWord
  | orWord | printWord | returnWord | superWord | thisWord | trueWord | varWord | whileWord
  | endOfText
  deriving DecidableEq

namespace TokenKind

/-- The words with which a statement may begin; `return`, `class` and `fun` are reserved. -/
def startsStatement : TokenKind → Bool
  | classWord | funWord | varWord | forWord | ifWord | whileWord | printWord | returnWord => true
  | _ => false

/-- The name of a kind in messages: the text of a fixed token, else a description. -/
def text : TokenKind → String
  | leftParen => "("
  | rightParen => ")"
  | leftBrace => "\x7b"
  | rightBrace => "\x7d"
  | comma => ","
  | dot => "."
  | minus => "-"
  | plus => "+"
  | semicolon => ";"
  | slash => "/"
  | star => "*"
  | bang => "!"
  | bangEqual => "!="
  | equal => "="
  | equalEqual => "=="
  | greater => ">"
  | greaterEqual => ">="
  | less => "<"
  | lessEqual => "<="
  | identifier => "identifier"
  | string => "string"
  | number => "number"
  | andWord => "and"
  | classWord => "class"
  | elseWord => "else"
  | falseWord => "false"
  | forWord => "for"
  | funWord => "fun"
  | ifWord => "if"
  | nilWord => "nil"
  | orWord => "or"
  | printWord => "print"
  | returnWord => "return"
  | superWord => "super"
  | thisWord => "this"
  | trueWord => "true"
  | varWord => "var"
  | whileWord => "while"
  | endOfText => "EOF"

end TokenKind

/-- The value that a number or string token stands for. -/
inductive Literal where
  | number (value : Number)
  | string (value : String)
  deriving DecidableEq

namespace Literal

/-- Literals are the same when their values are equal; numbers compare as numbers. -/
def same : Literal → Literal → Bool
  | number left, number right => left.equal right
  | string left, string right => left == right
  | _, _ => false

def text : Literal → String
  | number value => value.shortestText
  | string value => value

end Literal

/-- A word of a program. Its lexeme is its exact text. -/
structure Token where
  kind : TokenKind
  lexeme : Symbol
  literal : Option Literal
  line : Line
  deriving DecidableEq

namespace Token

def isEnd (token : Token) : Bool :=
  token.kind == .endOfText

/-- Tokens are the same when they agree in kind, symbol, literal and line. -/
def same (left right : Token) : Bool :=
  left.kind == right.kind && left.lexeme.same right.lexeme && left.line == right.line &&
    match left.literal, right.literal with
    | none, none => true
    | some value, some other => value.same other
    | _, _ => false

/-- The kind, the lexeme and the literal, separated by single blanks. -/
def text (token : Token) : String :=
  let words := token.kind.text ++ " " ++ token.lexeme.spelling
  match token.literal with
  | none => words
  | some literal => words ++ " " ++ literal.text

/-- Whether two rows of tokens are the same, place by place. -/
def sameRow : List Token → List Token → Bool
  | [], [] => true
  | left :: lefts, right :: rights => left.same right && sameRow lefts rights
  | _, _ => false

end Token

end Treewalk
