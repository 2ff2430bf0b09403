import Treewalk.Proofs.Session.Alike

/-!
The layout of a text does not matter. Two texts whose tokens agree place by place in all but their
lines are refused with the same diagnostics or executed to the same end, each with the lines of its
own tokens.
-/

namespace Treewalk

/-- Tokens that differ in their symbols and lines only. -/
structure Token.Agrees (left right : Token) : Prop where
  kind_eq : left.kind = right.kind
  spelling_eq : left.lexeme.spelling = right.lexeme.spelling
  literal_eq : left.literal = right.literal

/-- Lines on which tokens stand that correspond. -/
def Token.Facing (tokens others : List Token) (line line' : Line) : Prop :=
  ∃ token other, (token, other) ∈ tokens.zip others ∧ line = token.line ∧ line' = other.line

section

variable (line : Line → Line → Prop)

/-- The same complaint at the same location, on lines that face each other. -/
structure Diagnostic.Facing (left right : Diagnostic) : Prop where
  complaint_eq : left.complaint = right.complaint
  location_eq : left.location = right.location
  line : line left.line right.line

/-- Failures that differ in nothing but lines that face each other. -/
inductive Failure.Facing : Failure → Failure → Prop
  | rejected {diagnostics others : Diagnostics} :
      List.Forall₂ (Diagnostic.Facing line) diagnostics.entries others.entries →
      Facing (.rejected diagnostics) (.rejected others)
  | mistake {left right : Line} (cause : Mistake) : line left right →
      Facing (.stopped (.error (.mistake left cause)))
        (.stopped (.error (.mistake right cause)))
  | outputClosed : Facing (.stopped (.error .outputClosed)) (.stopped (.error .outputClosed))
  | fault (fault : Fault) : Facing (.stopped (.fault fault)) (.stopped (.fault fault))
  | outOfRounds : Facing (.stopped .outOfRounds) (.stopped .outOfRounds)

inductive Failure.FacingResult : Except Failure Unit → Except Failure Unit → Prop
  | ok : FacingResult (.ok ()) (.ok ())
  | error {failure other : Failure} : failure.Facing line other →
      FacingResult (.error failure) (.error other)

/-- Tokens of two texts that correspond, with symbols that have been made. -/
structure Token.Faces (names others : Names) (left right : Token) : Prop where
  agrees : left.Agrees right
  knows_left : names.Knows left.lexeme
  knows_right : others.Knows right.lexeme
  line : line left.line right.line

def Correspondence.facing (names others : Names) : Correspondence where
  token := Token.Faces line names others
  diagnostics before after :=
    List.Forall₂ (Diagnostic.Facing line) before.entries after.entries
  kind_eq h := h.agrees.kind_eq
  literal_eq h := h.agrees.literal_eq
  report := by
    intro left right before after error h hbefore
    have hlocation : left.location = right.location := by
      rw [Token.location, Token.location, Token.isEnd, Token.isEnd, h.agrees.kind_eq,
        h.agrees.spelling_eq]
    exact List.rel_append hbefore (.cons ⟨rfl, hlocation, h.line⟩ .nil)

variable {line} {names others : Names}

theorem Token.Faces.matched {left right : Token} (h : left.Faces line names others right)
    (hnames : names.spellings.Nodup) (hothers : others.spellings.Nodup)
    (htable : others.table = names.table) :
    left.Matched (.alike line hnames hothers htable) right where
  kind_eq := h.agrees.kind_eq
  symbol := .inl ⟨h.knows_left, h.knows_right, h.agrees.spelling_eq⟩
  line := h.line

theorem Stop.Matched.facing {hnames : names.spellings.Nodup} {hothers : others.spellings.Nodup}
    {htable : others.table = names.table} {reason other : Stop}
    (h : reason.Matched (.alike line hnames hothers htable) other) :
    Failure.Facing line (.stopped reason) (.stopped other) := by
  cases h with
  | mistake cause hline => exact .mistake cause hline
  | outputClosed => exact .outputClosed
  | fault fault => exact .fault fault
  | outOfRounds => exact .outOfRounds

end

theorem Lexed.knows_of_mem {text : String} {vocabulary : Vocabulary} (h : vocabulary.Valid)
    (diagnostics : Diagnostics) :
    ∀ token ∈ (ofText text vocabulary diagnostics).tokens,
      (ofText text vocabulary diagnostics).vocabulary.names.Knows token.lexeme := by
  have htwins := (ofText_twins text h h diagnostics).tokens
  exact fun token hmem => (List.forall₂_same.mp htwins token hmem).knows_left

theorem Token.Agrees.faces {tokens tokens' : List Token} {names others : Names}
    (h : List.Forall₂ Token.Agrees tokens tokens')
    (hnames : ∀ token ∈ tokens, names.Knows token.lexeme)
    (hothers : ∀ token ∈ tokens', others.Knows token.lexeme) :
    List.Forall₂ (Token.Faces (Token.Facing tokens tokens') names others) tokens tokens' := by
  obtain ⟨hlength, hagrees⟩ := List.forall₂_iff_zip.mp h
  refine List.forall₂_iff_zip.mpr ⟨hlength, fun {token other} hmem => ?_⟩
  obtain ⟨hleft, hright⟩ := List.of_mem_zip hmem
  exact ⟨hagrees hmem, hnames token hleft, hothers other hright, ⟨token, other, hmem, rfl, rfl⟩⟩

namespace Interpreter

/-- The tokens of a text as the interpreter finds them. -/
def lexed (interpreter : Interpreter) (source : String) : Lexed :=
  .ofText source interpreter.vocabulary {}

variable {interpreter : Interpreter} {s t : String}

theorem parse_facing (h : interpreter.vocabulary.Valid)
    (hs : (interpreter.lexed s).diagnostics.entries = [])
    (ht : (interpreter.lexed t).diagnostics.entries = [])
    (htokens : List.Forall₂ Token.Agrees (interpreter.lexed s).tokens
      (interpreter.lexed t).tokens) :
    (∃ program program', (interpreter.parse s).1 = .ok program ∧
        (interpreter.parse t).1 = .ok program' ∧
        Stmt.RelatedRow (Token.Faces
          (Token.Facing (interpreter.lexed s).tokens (interpreter.lexed t).tokens)
          (interpreter.lexed s).vocabulary.names (interpreter.lexed t).vocabulary.names)
          program program') ∨
      ∃ failure failure', (interpreter.parse s).1 = .error failure ∧
        (interpreter.parse t).1 = .error failure' ∧
        failure.Facing (Token.Facing (interpreter.lexed s).tokens (interpreter.lexed t).tokens)
          failure' := by
  have hfaces := Token.Agrees.faces htokens (Lexed.knows_of_mem h {}) (Lexed.knows_of_mem h {})
  have hdiagnostics : List.Forall₂ (Diagnostic.Facing
      (Token.Facing (interpreter.lexed s).tokens (interpreter.lexed t).tokens))
      (interpreter.lexed s).diagnostics.entries (interpreter.lexed t).diagnostics.entries := by
    rw [hs, ht]
    exact .nil
  have hparsed := Parsed.ofTokens_alike (.facing _ _ _) hfaces hdiagnostics
  have hempty : (interpreter.lexed s).diagnostics.isEmpty = true ∧
      (interpreter.lexed t).diagnostics.isEmpty = true := by
    rw [Diagnostics.isEmpty, Diagnostics.isEmpty, hs, ht]
    exact ⟨rfl, rfl⟩
  unfold parse
  dsimp only
  rw [← lexed, ← lexed, if_pos hempty.1, if_pos hempty.2]
  generalize Parsed.ofTokens (interpreter.lexed s).tokens _ = result at hparsed
  generalize Parsed.ofTokens (interpreter.lexed t).tokens _ = result' at hparsed
  cases hparsed with
  | fault fault => exact .inr ⟨_, _, rfl, rfl, .fault fault⟩
  | @ok parsed parsed' hprogram hdiagnostics =>
      obtain ⟨program, diagnostics⟩ := parsed
      obtain ⟨program', diagnostics'⟩ := parsed'
      cases hprogram with
      | none => exact .inr ⟨_, _, rfl, rfl, .rejected hdiagnostics⟩
      | some hrelated => exact .inl ⟨_, _, rfl, rfl, hrelated⟩

/-- Where the tokens of two texts agree but for their lines, the texts are refused for the same
reasons or come to the same end, and the one leaves what the other leaves. What is reported of a
token of the one text is reported of the corresponding token of the other. -/
theorem run_facing (h : interpreter.Reachable) {s t : String}
    (hs : (interpreter.lexed s).diagnostics.entries = [])
    (ht : (interpreter.lexed t).diagnostics.entries = [])
    (htokens : List.Forall₂ Token.Agrees (interpreter.lexed s).tokens
      (interpreter.lexed t).tokens) (rounds : Nat) :
    Failure.FacingResult (Token.Facing (interpreter.lexed s).tokens (interpreter.lexed t).tokens)
        (interpreter.run rounds s).1 (interpreter.run rounds t).1 ∧
      (interpreter.run rounds t).2.LeavesLike (interpreter.run rounds s).2 := by
  have hsound := h.sound
  rcases parse_facing hsound.valid hs ht htokens with
    ⟨program, program', hparse, hparse', hrelated⟩ | ⟨failure, failure', hparse, hparse', hfacing⟩
  · have hnames := (hsound.parse s).valid.nodup
    have hothers := (hsound.parse t).valid.nodup
    rw [vocabulary_parse] at hnames hothers
    -- The symbols of both texts are added to the same ones, so the world before matches itself.
    have hleft := Lexed.ofText_extends s interpreter.vocabulary {}
    have hright := Lexed.ofText_extends t interpreter.vocabulary {}
    have htable := hright.table_eq.trans hleft.table_eq.symm
    have hruns := Program.run_matches rounds interpreter.interactive
      (hrelated.imp fun _ _ htoken => htoken.matched hnames hothers htable)
      (hsound.matched hnames hothers htable hleft hright)
    rw [run_of_parse_ok hparse, run_of_parse_ok hparse', vocabulary_parse, vocabulary_parse]
    unfold execute
    dsimp only
    generalize program.run rounds _ _ = result at hruns
    generalize program'.run rounds _ _ = result' at hruns
    cases hruns with
    | ok hafter => exact ⟨.ok, .of_matched hnames hothers htable hafter⟩
    | error hreason hafter =>
        exact ⟨.error hreason.facing, .of_matched hnames hothers htable hafter⟩
  · rw [run_of_parse_error hparse, run_of_parse_error hparse', vocabulary_parse, vocabulary_parse]
    exact ⟨.error hfacing, rfl, rfl⟩

def fresh : Interpreter :=
  new 0 {} opened.clock

theorem run_facing_comment :
    fresh.Reachable ∧ (fresh.lexed "x;").diagnostics.entries = [] ∧
      (fresh.lexed "\n// y\nx ;").diagnostics.entries = [] ∧
      List.Forall₂ Token.Agrees (fresh.lexed "x;").tokens (fresh.lexed "\n// y\nx ;").tokens ∧
      Failure.FacingResult
          (Token.Facing (fresh.lexed "x;").tokens (fresh.lexed "\n// y\nx ;").tokens)
          (fresh.run 1 "x;").1 (fresh.run 1 "\n// y\nx ;").1 ∧
        (fresh.run 1 "\n// y\nx ;").2.LeavesLike (fresh.run 1 "x;").2 := by
  have hreachable : fresh.Reachable := .new 0 {} _
  have hfirst : ((fresh.lexed "x;").diagnostics.entries, (fresh.lexed "x;").tokens) =
      ([], [⟨.identifier, ⟨0, 17, "x"⟩, none, 1⟩, ⟨.semicolon, ⟨0, 18, ";"⟩, none, 1⟩,
        ⟨.endOfText, ⟨0, 19, ""⟩, none, 1⟩]) := by cbv
  have hsecond : ((fresh.lexed "\n// y\nx ;").diagnostics.entries,
      (fresh.lexed "\n// y\nx ;").tokens) =
      ([], [⟨.identifier, ⟨0, 17, "x"⟩, none, 3⟩, ⟨.semicolon, ⟨0, 18, ";"⟩, none, 3⟩,
        ⟨.endOfText, ⟨0, 19, ""⟩, none, 3⟩]) := by cbv
  obtain ⟨hs, hleft⟩ := Prod.mk.inj hfirst
  obtain ⟨ht, hright⟩ := Prod.mk.inj hsecond
  have htokens : List.Forall₂ Token.Agrees (fresh.lexed "x;").tokens
      (fresh.lexed "\n// y\nx ;").tokens := by
    rw [hleft, hright]
    exact .cons ⟨rfl, rfl, rfl⟩ (.cons ⟨rfl, rfl, rfl⟩ (.cons ⟨rfl, rfl, rfl⟩ .nil))
  exact ⟨hreachable, hs, ht, htokens, run_facing hreachable hs ht htokens 1⟩

end Interpreter

end Treewalk
