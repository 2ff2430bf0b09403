import Treewalk.Interpreter
import Treewalk.Proofs.Lexing.Twins
import Treewalk.Proofs.Parsing.Correspondence

/-!
The program of a text does not depend on the vocabulary of the interpreter that reads it, but for
the places of the symbols.
-/

namespace Treewalk

def Correspondence.twins (names others : Names) : Correspondence where
  token := Token.Twin names others
  diagnostics := Eq
  kind_eq h := h.kind_eq
  literal_eq h := h.literal_eq
  report := by
    rintro left right before _ error h rfl
    rw [Diagnostics.grammar, Diagnostics.grammar, Token.location, Token.location, Token.isEnd,
      Token.isEnd, h.line_eq, h.kind_eq, h.spelling_eq]

namespace Interpreter

theorem vocabulary_parse (interpreter : Interpreter) (source : String) :
    (interpreter.parse source).2 = { interpreter with
      vocabulary := (Lexed.ofText source interpreter.vocabulary {}).vocabulary } := by
  unfold parse
  dsimp only
  split
  · split
    · rfl
    · split <;> rfl
  · rfl

theorem world_parse (interpreter : Interpreter) (source : String) :
    (interpreter.parse source).2.world = interpreter.world := by
  rw [vocabulary_parse]

theorem parse_extends (interpreter : Interpreter) (source : String) :
    interpreter.vocabulary.names.Extends (interpreter.parse source).2.vocabulary.names := by
  rw [vocabulary_parse]
  exact Lexed.ofText_extends source interpreter.vocabulary {}

theorem parse_valid {interpreter : Interpreter} (h : interpreter.vocabulary.Valid)
    (source : String) : (interpreter.parse source).2.vocabulary.Valid := by
  rw [vocabulary_parse]
  exact (Lexed.ofText_twins source h h {}).valid_left

/-! A run in its two steps. -/

variable {interpreter : Interpreter} {source : String}

theorem run_of_parse_ok {program : Program} (h : (interpreter.parse source).1 = .ok program)
    (rounds : Nat) :
    interpreter.run rounds source = (interpreter.parse source).2.execute rounds program := by
  unfold run
  generalize interpreter.parse source = parsed at h ⊢
  obtain ⟨result, after⟩ := parsed
  cases h
  rfl

theorem run_of_parse_error {failure : Failure} (h : (interpreter.parse source).1 = .error failure)
    (rounds : Nat) :
    interpreter.run rounds source = (.error failure, (interpreter.parse source).2) := by
  unfold run
  generalize interpreter.parse source = parsed at h ⊢
  obtain ⟨result, after⟩ := parsed
  cases h
  rfl

/-- Two interpreters read related programs, or both refuse the text for the same reason. -/
theorem parse_twins (interpreter other : Interpreter) (h : interpreter.vocabulary.Valid)
    (hother : other.vocabulary.Valid) (source : String) :
    (∃ program program', (interpreter.parse source).1 = .ok program ∧
        (other.parse source).1 = .ok program' ∧
        Stmt.RelatedRow (Token.Twin (interpreter.parse source).2.vocabulary.names
          (other.parse source).2.vocabulary.names) program program') ∨
      ∃ failure, (interpreter.parse source).1 = .error failure ∧
        (other.parse source).1 = .error failure := by
  have hlexed := Lexed.ofText_twins source h hother {}
  have hparsed := Parsed.ofTokens_alike (.twins _ _) hlexed.tokens hlexed.diagnostics_eq
  rw [vocabulary_parse, vocabulary_parse]
  unfold parse
  dsimp only
  rw [hlexed.diagnostics_eq] at hparsed ⊢
  split
  · generalize Parsed.ofTokens _ _ = result at hparsed
    generalize Parsed.ofTokens _ _ = result' at hparsed
    cases hparsed with
    | fault fault => exact .inr ⟨_, rfl, rfl⟩
    | @ok parsed parsed' hprogram hdiagnostics =>
        obtain ⟨program, diagnostics⟩ := parsed
        obtain ⟨program', diagnostics'⟩ := parsed'
        cases hprogram with
        | none =>
            cases hdiagnostics
            exact .inr ⟨_, rfl, rfl⟩
        | some hrelated => exact .inl ⟨_, _, rfl, rfl, hrelated⟩
  · exact .inr ⟨_, rfl, rfl⟩

end Interpreter

end Treewalk
