import Treewalk.Diagnostic
import Treewalk.Segment
import Treewalk.Vocabulary

/-!
From segments to tokens. Operators, strings, numbers and words become tokens, in order; blanks
and comments vanish; the remaining segments become diagnostics. Reading never stops early, and
the tokens always end with the one that marks the end of the text.
-/

namespace Treewalk

/-- The newlines of a segment, as an amount of lines. -/
def Segment.newlines (segment : Segment) : Line :=
  UInt32.ofNat (segment.text.count '\n')

/-- A text read so far: the line reached, the tokens in reverse, the vocabulary in which their
lexemes are entered, and the diagnostics. -/
structure Lexing where
  line : Line
  tokens : List Token
  vocabulary : Vocabulary
  diagnostics : Diagnostics

namespace Lexing

/-- The state before the first segment of a text. -/
def start (vocabulary : Vocabulary) (diagnostics : Diagnostics) : Lexing :=
  ⟨1, [], vocabulary, diagnostics⟩

/-- Adds a token with the given text on the line reached. Its kind may depend on its symbol. -/
def push (lexing : Lexing) (text : List Char) (literal : Option Literal)
    (kind : Symbol → TokenKind) : Lexing :=
  let (symbol, vocabulary) := lexing.vocabulary.symbol (String.ofList text)
  { lexing with
    tokens := ⟨kind symbol, symbol, literal, lexing.line⟩ :: lexing.tokens
    vocabulary }

def complain (lexing : Lexing) (error : LexicalError) : Lexing :=
  { lexing with diagnostics := lexing.diagnostics.lexical lexing.line error }

/-- Reads one segment. A token or complaint is placed on the line on which its segment ends. -/
def read (lexing : Lexing) (segment : Segment) : Lexing :=
  let lexing := { lexing with line := lexing.line + segment.newlines }
  match segment.kind with
  | .blank => lexing
  | .comment => lexing
  | .operator kind => lexing.push segment.text none fun _ => kind
  | .string =>
      let body := String.ofList segment.text.tail.dropLast
      lexing.push segment.text (some (.string body)) fun _ => .string
  | .number =>
      match Numeral.read? segment.text with
      | some numeral =>
          lexing.push segment.text (some (.number numeral.number)) fun _ => .number
      | none => lexing.complain (.badNumber (String.ofList segment.text))
  | .word =>
      lexing.push segment.text none fun symbol =>
        (lexing.vocabulary.keyword? symbol).getD .identifier
  | .unterminated => lexing.complain .unterminatedString
  | .stray character => lexing.complain (.unexpectedCharacter character)

end Lexing

/-- The tokens of a text in order, with the vocabulary and the diagnostics afterwards. -/
structure Lexed where
  tokens : List Token
  vocabulary : Vocabulary
  diagnostics : Diagnostics

/-- Ends a text: the last token has no characters. -/
def Lexing.finish (lexing : Lexing) : Lexed :=
  let ended := lexing.push [] none fun _ => .endOfText
  ⟨ended.tokens.reverse, ended.vocabulary, ended.diagnostics⟩

def Lexed.ofText (text : String) (vocabulary : Vocabulary) (diagnostics : Diagnostics) : Lexed :=
  ((Segment.ofText text.toList).foldl Lexing.read
    (Lexing.start vocabulary diagnostics)).finish

end Treewalk
