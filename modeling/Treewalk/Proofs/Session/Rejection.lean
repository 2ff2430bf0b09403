import Treewalk.Proofs.Parsing.Termination
import Treewalk.Proofs.Session.Layout
import Treewalk.Proofs.Session.Safety

/-!
Texts with errors. Such a text is refused with the complaints of one stage: those about its
characters if there are any, and else those about its tokens.
-/

namespace Treewalk

namespace Diagnostics

def Lexical (diagnostics : Diagnostics) : Prop :=
  ∀ entry ∈ diagnostics.entries, ∃ error, entry.complaint = .lexical error

def Grammatical (diagnostics : Diagnostics) : Prop :=
  ∀ entry ∈ diagnostics.entries, ∃ error, entry.complaint = .grammar error

end Diagnostics

/-! The first stage. -/

theorem Lexing.complain_lexical {lexing : Lexing} (h : lexing.diagnostics.Lexical)
    (error : LexicalError) : (lexing.complain error).diagnostics.Lexical :=
  List.forall_mem_append.mpr ⟨h, List.forall_mem_singleton.mpr ⟨error, rfl⟩⟩

theorem Lexing.read_lexical {lexing : Lexing} (h : lexing.diagnostics.Lexical)
    (segment : Segment) : (lexing.read segment).diagnostics.Lexical := by
  have hline : Diagnostics.Lexical
      ({ lexing with line := lexing.line + segment.newlines } : Lexing).diagnostics := h
  unfold Lexing.read
  cases segment.kind with
  | blank | comment | operator kind | string | word => exact h
  | number =>
      cases Numeral.read? segment.text with
      | none => exact complain_lexical hline _
      | some numeral => exact h
  | unterminated | stray character => exact complain_lexical hline _

theorem Lexed.ofText_lexical (text : String) (vocabulary : Vocabulary) :
    (ofText text vocabulary {}).diagnostics.Lexical := by
  have hread (segments : List Segment) {lexing : Lexing} (h : lexing.diagnostics.Lexical) :
      (segments.foldl Lexing.read lexing).diagnostics.Lexical := by
    induction segments generalizing lexing with
    | nil => exact h
    | cons segment segments ih => exact ih (Lexing.read_lexical h segment)
  exact hread _ fun _ hentry => absurd hentry List.not_mem_nil

/-! The second stage. -/

theorem Parsed.exists_remarks {tokens : List Token} (hend : ∃ token ∈ tokens, token.isEnd = true)
    (diagnostics : Diagnostics) :
    ∃ program remarks, ofTokens tokens diagnostics =
        .ok ⟨program, ⟨diagnostics.entries ++ remarks.map Remark.diagnostic⟩⟩ ∧
      (program = none ↔ remarks ≠ []) := by
  obtain ⟨ending, hfirst⟩ := Option.isSome_iff_exists.mp (List.find?_isSome.mpr hend)
  obtain ⟨hending, before, rest, rfl, hbefore⟩ := List.find?_eq_some_iff_append.mp hfirst
  have hplain : ∀ token ∈ before, token.isEnd = false := by simpa using hbefore
  have hlength : before.length < (before ++ ending :: rest).length + 1 := by
    rw [List.length_append]
    omega
  obtain ⟨read, remarks, hread⟩ := Parser.declarations_ends hplain hending
  have hparsed := hread _ _ hlength hlength [] ⟨[], diagnostics, false⟩ rest
  refine ⟨if remarks.isEmpty then some read else none, remarks, ?_, by cases remarks <;> simp⟩
  have hentries := Cursor.entries_noting ⟨[], diagnostics, false⟩ remarks
  rw [ofTokens_of_declarations hparsed, Cursor.failed_before, Cursor.failed_noting, ← hentries]
  cases remarks <;> rfl

namespace Lexed

/-- The text has errors: its characters give rise to complaints, or else its tokens. -/
def Flawed (lexed : Lexed) : Prop :=
  lexed.diagnostics.entries ≠ [] ∨
    ∃ parsed, Parsed.ofTokens lexed.tokens {} = .ok parsed ∧ parsed.diagnostics.entries ≠ []

/-- The complaints with which a text is refused. -/
structure Refused (lexed : Lexed) (diagnostics : Diagnostics) : Prop where
  entries_ne : diagnostics.entries ≠ []
  lexical : lexed.diagnostics.entries ≠ [] → diagnostics.Lexical
  grammatical : lexed.diagnostics.entries = [] → diagnostics.Grammatical

end Lexed

theorem Interpreter.parse_of_flawed {interpreter : Interpreter} {source : String}
    (h : (interpreter.lexed source).Flawed) :
    ∃ diagnostics, (interpreter.parse source).1 = .error (.rejected diagnostics) ∧
      (interpreter.lexed source).Refused diagnostics := by
  have hlexical := Lexed.ofText_lexical source interpreter.vocabulary
  obtain ⟨program, remarks, hparsed, hprogram⟩ :=
    Parsed.exists_remarks (Lexed.exists_end source interpreter.vocabulary {}) {}
  unfold parse
  unfold lexed at h ⊢
  generalize Lexed.ofText source interpreter.vocabulary {} = lexed at *
  obtain ⟨tokens, vocabulary, ⟨entries⟩⟩ := lexed
  cases entries with
  | cons entry entries =>
      refine ⟨_, rfl, List.cons_ne_nil _ _, fun _ => hlexical, fun hnone => ?_⟩
      exact absurd hnone (List.cons_ne_nil _ _)
  | nil =>
      have hne : remarks ≠ [] := by
        rcases h with h | ⟨parsed, hread, hentries⟩
        · exact absurd rfl h
        · rw [hparsed] at hread
          cases hread
          simpa using hentries
      obtain rfl := hprogram.mpr hne
      refine ⟨⟨remarks.map Remark.diagnostic⟩, ?_, by simpa using hne, fun h => absurd rfl h, ?_⟩
      · dsimp only [Diagnostics.isEmpty, List.isEmpty_nil, if_true]
        rw [hparsed]
        rfl
      · intro _ entry hentry
        obtain ⟨remark, -, rfl⟩ := List.mem_map.mp hentry
        exact ⟨remark.error, rfl⟩

end Treewalk
