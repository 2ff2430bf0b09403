import Treewalk.Token

/-!
The vocabulary of one interpreter: its table of names, in which the sixteen keywords are entered
first, and the keyword symbols with their kinds.
-/

namespace Treewalk

/-- The reserved words. -/
def keywordSpellings : List (String × TokenKind) :=
  [("and", .andWord), ("class", .classWord), ("else", .elseWord), ("false", .falseWord),
    ("for", .forWord), ("fun", .funWord), ("if", .ifWord), ("nil", .nilWord),
    ("or", .orWord), ("print", .printWord), ("return", .returnWord), ("super", .superWord),
    ("this", .thisWord), ("true", .trueWord), ("var", .varWord), ("while", .whileWord)]

structure Vocabulary where
  names : Names
  keywords : List (Symbol × TokenKind)

namespace Vocabulary

/-- Enters reserved words one after the other. -/
def reserve : List (String × TokenKind) → Names → Vocabulary
  | [], names => ⟨names, []⟩
  | (spelling, kind) :: rest, names =>
      let (symbol, names) := names.intern spelling
      let vocabulary := reserve rest names
      { vocabulary with keywords := (symbol, kind) :: vocabulary.keywords }

/-- The vocabulary with which an interpreter starts; its symbols belong to the given table. -/
def new (table : Nat) : Vocabulary :=
  reserve keywordSpellings ⟨table, []⟩

/-- The symbol of a spelling, with the vocabulary that knows it. -/
def symbol (vocabulary : Vocabulary) (spelling : String) : Symbol × Vocabulary :=
  let (symbol, names) := vocabulary.names.intern spelling
  (symbol, { vocabulary with names })

/-- The keyword that a symbol is. A symbol of another table is none, whatever its spelling. -/
def keyword? (vocabulary : Vocabulary) (symbol : Symbol) : Option TokenKind :=
  (vocabulary.keywords.find? (·.1.same symbol)).map (·.2)

end Vocabulary

end Treewalk
