import Treewalk.Token

/-!
Segments: a text cut, without a gap, into blanks, comments, operators, strings, numbers, words
and what is none of these. Each segment is as long as its kind allows.
-/

namespace Treewalk

/-- What a segment is. -/
inductive SegmentKind where
  | blank
  | comment
  | operator (kind : TokenKind)
  | string
  | number
  | word
  | unterminated
  | stray (character : Char)
  deriving DecidableEq

structure Segment where
  kind : SegmentKind
  text : List Char
  deriving DecidableEq

namespace Segment

def isBlank (character : Char) : Bool :=
  character == ' ' || character == '\t' || character == '\r' || character == '\n'

/-- Words are made of the letters, digits and the underscore of ASCII. -/
def isWordStart (character : Char) : Bool :=
  character.isAlpha || character == '_'

def isWordPart (character : Char) : Bool :=
  character.isAlphanum || character == '_'

/-- The operators of one character. -/
def operator? : Char → Option TokenKind
  | '(' => some .leftParen
  | ')' => some .rightParen
  | '{' => some .leftBrace
  | '}' => some .rightBrace
  | ',' => some .comma
  | '.' => some .dot
  | '-' => some .minus
  | '+' => some .plus
  | ';' => some .semicolon
  | '*' => some .star
  | '/' => some .slash
  | '!' => some .bang
  | '=' => some .equal
  | '<' => some .less
  | '>' => some .greater
  | _ => none

/-- The operators that an equals sign makes longer. -/
def withEqual? : TokenKind → Option TokenKind
  | .bang => some .bangEqual
  | .equal => some .equalEqual
  | .less => some .lessEqual
  | .greater => some .greaterEqual
  | _ => none

/-! Each of the following cuts the segment that begins with the character `first`, of which
`rest` is the continuation, and returns it with what remains. -/

/-- A comment ends before the next newline. -/
def cutComment (first : Char) (rest : List Char) : Segment × List Char :=
  (⟨.comment, first :: rest.takeWhile (· != '\n')⟩, rest.dropWhile (· != '\n'))

/-- A string ends with the next quote. Without one, all that remains is unterminated. -/
def cutString (first : Char) (rest : List Char) : Segment × List Char :=
  match rest.dropWhile (· != '"') with
  | [] => (⟨.unterminated, first :: rest⟩, [])
  | quote :: remaining =>
      (⟨.string, first :: (rest.takeWhile (· != '"') ++ [quote])⟩, remaining)

/-- A point belongs to a number only if a digit follows it. -/
def cutNumber (first : Char) (rest : List Char) : Segment × List Char :=
  let whole := first :: rest.takeWhile Char.isDigit
  match rest.dropWhile Char.isDigit with
  | '.' :: digit :: more =>
      if digit.isDigit then
        (⟨.number, whole ++ '.' :: digit :: more.takeWhile Char.isDigit⟩,
          more.dropWhile Char.isDigit)
      else (⟨.number, whole⟩, '.' :: digit :: more)
  | remaining => (⟨.number, whole⟩, remaining)

def cutWord (first : Char) (rest : List Char) : Segment × List Char :=
  (⟨.word, first :: rest.takeWhile isWordPart⟩, rest.dropWhile isWordPart)

def cutOperator (kind : TokenKind) (first : Char) (rest : List Char) : Segment × List Char :=
  match withEqual? kind, rest with
  | some longer, '=' :: remaining => (⟨.operator longer, [first, '=']⟩, remaining)
  | _, _ => (⟨.operator kind, [first]⟩, rest)

/-- The first segment of a text, and what remains. -/
def next (first : Char) (rest : List Char) : Segment × List Char :=
  if isBlank first then (⟨.blank, [first]⟩, rest)
  else if first == '/' && rest.head? == some '/' then cutComment first rest
  else if first == '"' then cutString first rest
  else if first.isDigit then cutNumber first rest
  else if isWordStart first then cutWord first rest
  else
    match operator? first with
    | some kind => cutOperator kind first rest
    | none => (⟨.stray first, [first]⟩, rest)

/-! Nothing is lost: a segment followed by what remains is the text again. -/

theorem cutComment_append (first : Char) (rest : List Char) :
    (cutComment first rest).1.text ++ (cutComment first rest).2 = first :: rest := by
  simp [cutComment, List.takeWhile_append_dropWhile]

theorem cutString_append (first : Char) (rest : List Char) :
    (cutString first rest).1.text ++ (cutString first rest).2 = first :: rest := by
  unfold cutString
  split
  · simp
  · next quote remaining h =>
      have hrest := List.takeWhile_append_dropWhile (p := (· != '"')) (l := rest)
      rw [h] at hrest
      simpa using hrest

theorem cutNumber_append (first : Char) (rest : List Char) :
    (cutNumber first rest).1.text ++ (cutNumber first rest).2 = first :: rest := by
  have hrest := List.takeWhile_append_dropWhile (p := Char.isDigit) (l := rest)
  unfold cutNumber
  split
  · next digit more h =>
      rw [h] at hrest
      split <;> simp [List.takeWhile_append_dropWhile, hrest]
  · simp [hrest]

theorem cutWord_append (first : Char) (rest : List Char) :
    (cutWord first rest).1.text ++ (cutWord first rest).2 = first :: rest := by
  simp [cutWord, List.takeWhile_append_dropWhile]

theorem cutOperator_append (kind : TokenKind) (first : Char) (rest : List Char) :
    (cutOperator kind first rest).1.text ++ (cutOperator kind first rest).2 =
      first :: rest := by
  unfold cutOperator
  split <;> simp

theorem next_append (first : Char) (rest : List Char) :
    (next first rest).1.text ++ (next first rest).2 = first :: rest := by
  unfold next
  repeat' split
  all_goals simp [cutComment_append, cutString_append, cutNumber_append, cutWord_append,
    cutOperator_append]

theorem next_text_ne_nil (first : Char) (rest : List Char) :
    (next first rest).1.text ≠ [] := by
  unfold next cutComment cutString cutNumber cutWord cutOperator
  dsimp only
  repeat' split
  all_goals simp

theorem next_remaining_length_le (first : Char) (rest : List Char) :
    (next first rest).2.length ≤ rest.length := by
  have happend := congrArg List.length (next_append first rest)
  have htext := List.length_pos_iff.mpr (next_text_ne_nil first rest)
  simp only [List.length_append, List.length_cons] at happend
  omega

/-- Cuts a text into segments and puts them behind those already cut, which stand in reverse. -/
def cutOnto (done : List Segment) : List Char → List Segment
  | [] => done.reverse
  | first :: rest => cutOnto ((next first rest).1 :: done) (next first rest).2
termination_by text => text.length
decreasing_by
  have := next_remaining_length_le first rest
  simp only [List.length_cons]
  omega

/-- The segments of a text, from its beginning. -/
def ofText (text : List Char) : List Segment :=
  cutOnto [] text

theorem cutOnto_eq (done : List Segment) (text : List Char) :
    cutOnto done text = done.reverse ++ ofText text := by
  match text with
  | [] => simp [ofText, cutOnto]
  | first :: rest =>
      have hle := next_remaining_length_le first rest
      rw [ofText, cutOnto, cutOnto, cutOnto_eq _ (next first rest).2,
        cutOnto_eq [_] (next first rest).2]
      simp
termination_by text.length
decreasing_by all_goals simp only [List.length_cons]; omega

@[simp] theorem ofText_nil : ofText [] = [] := by
  rw [ofText, cutOnto, List.reverse_nil]

theorem ofText_cons (first : Char) (rest : List Char) :
    ofText (first :: rest) = (next first rest).1 :: ofText (next first rest).2 := by
  rw [ofText, cutOnto, cutOnto_eq]
  rfl

end Segment

end Treewalk
