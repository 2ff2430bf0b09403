import Treewalk.Proofs.Lexing.Spacing
import Treewalk.Proofs.Number.Text

/-!
How the tokens of a text are spelled, and what they stand for: all tokens of an operator or keyword
are spelled alike, names are words that are no keywords, numbers have no sign and strings no quote.
-/

namespace Treewalk

namespace Token

/-- The token of an operator or keyword. -/
structure IsFixed (token : Token) : Prop where
  spelling_eq : token.lexeme.spelling = token.kind.text
  literal_eq : token.literal = none

structure IsName (token : Token) : Prop where
  kind_eq : token.kind = .identifier
  form : Segment.Form .word token.lexeme.spelling.toList
  not_keyword : ∀ kind, (token.lexeme.spelling, kind) ∉ keywordSpellings
  literal_eq : token.literal = none

/-- A token that a text can have, other than the one that ends it. -/
def Spelled (token : Token) : Prop :=
  match token.kind with
  | .identifier => token.IsName
  | .number => ∃ numeral : Numeral, token.literal = some (.number numeral.number)
  | .string => ∃ value, '"' ∉ value.toList ∧ token.literal = some (.string value)
  | _ => token.IsFixed

def lexical : List TokenKind :=
  [.identifier, .number, .string]

theorem spelled_iff_isFixed {token : Token} (h : token.kind ∉ lexical) :
    token.Spelled ↔ token.IsFixed := by
  unfold Spelled
  split
  · next hkind => simp [lexical, hkind] at h
  · next hkind => simp [lexical, hkind] at h
  · next hkind => simp [lexical, hkind] at h
  · exact Iff.rfl

end Token

namespace Segment

variable {names : Names} {line : Line} {segment : Segment} {segments : List Segment}
  {tokens : List Token} {complaints : List Diagnostic} {token : Token}

theorem Form.operator_eq {kind : TokenKind} {text : List Char} (h : Form (.operator kind) text) :
    String.ofList text = kind.text ∧ kind ∉ Token.lexical := by
  have hshort : ∀ entry ∈ shortOperators,
      String.ofList [entry.1] = entry.2.text ∧ entry.2 ∉ Token.lexical := by decide
  have hlong : ∀ entry ∈ longOperators,
      String.ofList [entry.1, '='] = entry.2.text ∧ entry.2 ∉ Token.lexical := by decide
  cases h with
  | operator hmem => exact hshort _ hmem
  | longOperator hmem => exact hlong _ hmem

/-- The text of a numeral is one by which a number could be written. -/
theorem Form.numeral (numeral : Numeral) : Form .number numeral.text := by
  have hdigits : ∀ digit ∈ Nat.toDigits 10 (numeral.digits / 10 ^ numeral.places),
      digit.isDigit = true := fun _ => Numeral.isDigit_of_mem_toDigits
  by_cases hne : numeral.fraction = []
  · rw [numeral.text_of_whole hne]
    exact .number Nat.toDigits_ne_nil hdigits
  · obtain ⟨zeros, -, hfraction, -⟩ := numeral.exists_fraction
    rw [numeral.text_of_fraction hne]
    exact .fraction Nat.toDigits_ne_nil hdigits hne hfraction

theorem Form.quote_notMem {body : List Char} (h : Form .string ('"' :: (body ++ ['"']))) :
    '"' ∉ body := by
  generalize htext : '"' :: (body ++ ['"']) = text at h
  generalize hkind : SegmentKind.string = kind at h
  cases h with
  | string hquote =>
      obtain rfl := List.append_cancel_right (List.cons.inj htext).2
      exact hquote
  | blank | comment | operator | longOperator | number | fraction | word => cases hkind

theorem Becomes.spelled (h : segment.Becomes names line token) (hformed : segment.Formed) :
    token.Spelled := by
  have hkeyword : ∀ entry ∈ keywordSpellings,
      entry.1 = entry.2.text ∧ entry.2 ∉ Token.lexical := by decide
  obtain ⟨kind, lexeme, literal, line⟩ := token
  obtain ⟨hmeans, hspelling, -, -⟩ := h
  have hform := (hformed.form_of_isToken hmeans.isToken.1).1
  dsimp only at hmeans hspelling
  cases hmeans with
  | operator =>
      obtain ⟨htext, hkind⟩ := hform.operator_eq
      exact (Token.spelled_iff_isFixed hkind).mpr ⟨hspelling.trans htext, rfl⟩
  | keyword hmem =>
      obtain ⟨htext, hkind⟩ := hkeyword _ hmem
      exact (Token.spelled_iff_isFixed hkind).mpr ⟨hspelling.trans htext, rfl⟩
  | identifier hnone => exact ⟨rfl, by simpa [hspelling] using hform, by simpa [hspelling], rfl⟩
  | number _ => exact ⟨_, rfl⟩
  | string => exact ⟨_, by simpa using hform.quote_notMem, rfl⟩

/-- The tokens of a text are spelled as such tokens are. -/
theorem Read.spelled (h : Read names line segments tokens complaints)
    (hformed : ∀ segment ∈ segments, segment.Formed) : ∀ token ∈ tokens, token.Spelled := by
  induction h with
  | nil => simp
  | gap _ _ ih | unterminated _ _ ih | stray _ _ ih =>
      exact ih (List.forall_mem_cons.mp hformed).2
  | token hbecomes _ ih =>
      rw [List.forall_mem_cons] at hformed ⊢
      exact ⟨hbecomes.spelled hformed.1, ih hformed.2⟩

end Segment

end Treewalk
