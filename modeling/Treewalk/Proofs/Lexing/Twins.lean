import Mathlib.Data.List.Forall2
import Treewalk.Lexing
import Treewalk.Proofs.Naming

/-!
The tokens of a text do not depend on the vocabulary that reads it, but for the places of their
symbols.
-/

namespace Treewalk

/-- Tokens of two vocabularies that differ in the places of their symbols only. -/
structure Token.Twin (names others : Names) (left right : Token) : Prop where
  kind_eq : left.kind = right.kind
  spelling_eq : left.lexeme.spelling = right.lexeme.spelling
  literal_eq : left.literal = right.literal
  line_eq : left.line = right.line
  knows_left : names.Knows left.lexeme
  knows_right : others.Knows right.lexeme

theorem Token.Twin.mono {names names' others others' : Names} {left right : Token}
    (h : Token.Twin names others left right) (hleft : names.Extends names')
    (hright : others.Extends others') : Token.Twin names' others' left right :=
  { h with
    knows_left := h.knows_left.mono hleft
    knows_right := h.knows_right.mono hright }

theorem Token.knows_of_twins {names others : Names} {tokens tokens' : List Token}
    (h : List.Forall₂ (Token.Twin names others) tokens tokens') :
    ∀ token ∈ tokens, names.Knows token.lexeme := by
  have hknown := h.imp fun _ _ htwin => And.intro htwin.knows_left htwin
  exact ((List.forall₂_and_left _ _).mp hknown).1

namespace Lexing

/-- One text has been read so far in two vocabularies. -/
structure Twins (left right : Lexing) : Prop where
  line_eq : left.line = right.line
  tokens : List.Forall₂ (Token.Twin left.vocabulary.names right.vocabulary.names) left.tokens
    right.tokens
  diagnostics_eq : left.diagnostics = right.diagnostics
  valid_left : left.vocabulary.Valid
  valid_right : right.vocabulary.Valid

variable {left right : Lexing}

theorem Twins.complain (h : left.Twins right) (error : LexicalError) :
    (left.complain error).Twins (right.complain error) :=
  { h with
    diagnostics_eq := by simp [Lexing.complain, h.diagnostics_eq, h.line_eq] }

theorem Twins.push (h : left.Twins right) (text : List Char) (literal : Option Literal)
    (kind kind' : Symbol → TokenKind)
    (hkind : kind (left.vocabulary.symbol (String.ofList text)).1 =
      kind' (right.vocabulary.symbol (String.ofList text)).1) :
    (left.push text literal kind).Twins (right.push text literal kind') where
  line_eq := h.line_eq
  tokens := by
    have hextends := left.vocabulary.symbol_extends (String.ofList text)
    have hextends' := right.vocabulary.symbol_extends (String.ofList text)
    refine .cons ⟨hkind, ?_, rfl, h.line_eq, ?_, ?_⟩ (h.tokens.imp fun _ _ htwin =>
      htwin.mono hextends hextends')
    · exact (left.vocabulary.symbol_spelling _).trans (right.vocabulary.symbol_spelling _).symm
    · exact left.vocabulary.symbol_knows _
    · exact right.vocabulary.symbol_knows _
  diagnostics_eq := h.diagnostics_eq
  valid_left := h.valid_left.symbol _
  valid_right := h.valid_right.symbol _

theorem Twins.keyword?_eq (h : left.Twins right) (spelling : String) :
    left.vocabulary.keyword? (left.vocabulary.symbol spelling).1 =
      right.vocabulary.keyword? (right.vocabulary.symbol spelling).1 := by
  have hleft := (h.valid_left.symbol spelling).keyword?_eq (left.vocabulary.symbol_knows spelling)
  have hright :=
    (h.valid_right.symbol spelling).keyword?_eq (right.vocabulary.symbol_knows spelling)
  rw [Vocabulary.symbol_spelling] at hleft hright
  exact hleft.trans hright.symm

theorem Twins.read (h : left.Twins right) (segment : Segment) :
    (left.read segment).Twins (right.read segment) := by
  have hline : Twins { left with line := left.line + segment.newlines }
      { right with line := right.line + segment.newlines } :=
    { h with line_eq := by rw [h.line_eq] }
  unfold Lexing.read
  cases segment.kind with
  | blank | comment => exact hline
  | operator kind | string => exact hline.push _ _ _ _ rfl
  | number =>
      cases Numeral.read? segment.text with
      | none => exact hline.complain _
      | some numeral => exact hline.push _ _ _ _ rfl
  | word => exact hline.push _ _ _ _ (congrArg (·.getD .identifier) (hline.keyword?_eq _))
  | unterminated | stray character => exact hline.complain _

theorem Twins.foldl_read (h : left.Twins right) (segments : List Segment) :
    (segments.foldl Lexing.read left).Twins (segments.foldl Lexing.read right) := by
  induction segments generalizing left right with
  | nil => exact h
  | cons segment segments ih => exact ih (h.read segment)

theorem read_extends (lexing : Lexing) (segment : Segment) :
    lexing.vocabulary.names.Extends (lexing.read segment).vocabulary.names := by
  unfold Lexing.read
  split
  case h_5 => split <;> first | exact Vocabulary.symbol_extends _ _ | exact .refl _
  all_goals first | exact Vocabulary.symbol_extends _ _ | exact .refl _

theorem foldl_read_extends (lexing : Lexing) (segments : List Segment) :
    lexing.vocabulary.names.Extends (segments.foldl Lexing.read lexing).vocabulary.names := by
  induction segments generalizing lexing with
  | nil => exact .refl _
  | cons segment segments ih => exact (lexing.read_extends segment).trans (ih (lexing.read segment))

end Lexing

namespace Lexed

structure Twins (left right : Lexed) : Prop where
  tokens : List.Forall₂ (Token.Twin left.vocabulary.names right.vocabulary.names) left.tokens
    right.tokens
  diagnostics_eq : left.diagnostics = right.diagnostics
  valid_left : left.vocabulary.Valid
  valid_right : right.vocabulary.Valid

theorem ofText_twins (text : String) {left right : Vocabulary} (hleft : left.Valid)
    (hright : right.Valid) (diagnostics : Diagnostics) :
    (ofText text left diagnostics).Twins (ofText text right diagnostics) := by
  have hstart : (Lexing.start left diagnostics).Twins (Lexing.start right diagnostics) :=
    ⟨rfl, .nil, rfl, hleft, hright⟩
  have hread := hstart.foldl_read (Segment.ofText text.toList)
  have hend := hread.push [] none (fun _ => .endOfText) (fun _ => .endOfText) rfl
  exact ⟨List.rel_reverse hend.tokens, hend.diagnostics_eq, hend.valid_left, hend.valid_right⟩

theorem ofText_extends (text : String) (vocabulary : Vocabulary) (diagnostics : Diagnostics) :
    vocabulary.names.Extends (ofText text vocabulary diagnostics).vocabulary.names := by
  have hread := (Lexing.start vocabulary diagnostics).foldl_read_extends
    (Segment.ofText text.toList)
  exact hread.trans (Vocabulary.symbol_extends _ _)

end Lexed

end Treewalk
