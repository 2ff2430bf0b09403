import Treewalk.Proofs.Grammar.Legible
import Treewalk.Proofs.Parsing.Joining
import Treewalk.Proofs.Scoping.Moment
import Treewalk.Proofs.Session.Layout
import Treewalk.Proofs.Tree.Readable

/-!
The texts of the trees that interpreters read are unambiguous, although strings are written in them
without escapes and names may be those of their own words.
-/

namespace Treewalk

namespace Node

def Legible : Node → Prop
  | expression value => value.Legible
  | statement value => value.Legible

variable {node other : Node}

theorem Legible.children (h : node.Legible) : ∀ child ∈ node.children, child.Legible := by
  cases node with
  | expression value =>
      change value.Legible at h
      cases h with
      | constant | var => simp [Node.children]
      | group hinner => simpa [Node.children, Legible] using hinner
      | unary _ _ hoperand => simpa [Node.children, Legible] using hoperand
      | binary hleft _ _ hright | logical hleft _ _ hright =>
          simpa [Node.children, Legible] using ⟨hleft, hright⟩
      | assign _ hvalue => simpa [Node.children, Legible] using hvalue
      | call hcallee _ _ harguments =>
          simpa [Node.children, Legible] using ⟨hcallee, harguments⟩
  | statement value =>
      change value.Legible at h
      cases h with
      | declare => simp [Node.children]
      | expression hvalue | print hvalue | declareAs _ hvalue =>
          simpa [Node.children, Legible] using hvalue
      | block hbody => simpa [Node.children, Legible] using hbody
      | conditional hcondition hconsequent | loop hcondition hconsequent =>
          simpa [Node.children, Legible] using ⟨hcondition, hconsequent⟩
      | choice hcondition hconsequent halternative =>
          simpa [Node.children, Legible] using ⟨hcondition, hconsequent, halternative⟩

theorem Legible.at? (h : node.Legible) {path : List Nat} {scopes scopes' : Scopes}
    (hat : node.at? path scopes = some (other, scopes')) : other.Legible := by
  induction path generalizing node scopes with
  | nil =>
      obtain ⟨rfl, -⟩ := Prod.mk.inj (Option.some.inj hat)
      exact h
  | cons place path ih =>
      unfold Node.at? at hat
      split at hat
      · contradiction
      · next child hchild => exact ih (h.children child (List.mem_of_getElem? hchild)) hat

end Node

/-- What occurs in legible statements is legible. -/
theorem Program.legible_of_occurrence? {program : Program} {path : List Nat} {node : Node}
    {scopes : Scopes} (h : ∀ statement ∈ program, statement.Legible)
    (hat : program.occurrence? path = some (node, scopes)) : node.Legible := by
  unfold occurrence? at hat
  split at hat
  · contradiction
  · split at hat
    · contradiction
    · next statement hstatement =>
        have hlegible : (Node.statement statement).Legible :=
          h statement (List.mem_of_getElem? hstatement)
        exact hlegible.at? hat

namespace Interpreter

theorem legible_of_parse {interpreter : Interpreter} (h : interpreter.vocabulary.Valid)
    {source : String} {program : Program} (hparse : (interpreter.parse source).1 = .ok program) :
    ∀ statement ∈ program, statement.Legible := by
  obtain ⟨listing, hlisting, rfl⟩ := reads_of_parse h hparse
  exact hlisting.wellFormed.legible
    (hlisting.read.spelled (Segment.ofText_partition source.toList).formed)

/-- Statements without infinite numbers that occur in programs read by interpreters are the same but
for lines if their texts are the same. -/
theorem occurrence_related_of_text_eq {first second : Interpreter} (hfirst : first.Reachable)
    (hsecond : second.Reachable) {source source' : String} {program program' : Program}
    (hparse : (first.parse source).1 = .ok program)
    (hparse' : (second.parse source').1 = .ok program') {path path' : List Nat}
    {scopes scopes' : Scopes} {statement statement' : Stmt}
    (hat : program.occurrence? path = some (.statement statement, scopes))
    (hat' : program'.occurrence? path' = some (.statement statement', scopes'))
    (hfinite : ∀ number ∈ statement.numbers, number.isFinite = true)
    (hfinite' : ∀ number ∈ statement'.numbers, number.isFinite = true)
    (htext : statement.text = statement'.text) :
    Stmt.Related Token.ReadsLike statement statement' := by
  have hlegible : statement.Legible :=
    Program.legible_of_occurrence? (legible_of_parse hfirst.sound.valid hparse) hat
  have hlegible' : statement'.Legible :=
    Program.legible_of_occurrence? (legible_of_parse hsecond.sound.valid hparse') hat'
  exact hlegible.related_of_text_eq hlegible' hfinite hfinite' htext

theorem occurrence_related_of_text_eq_block :
    fresh.Reachable ∧ (new 1 {} opened.clock).Reachable ∧
      ∃ (program program' : Program) (statement statement' : Stmt) (scopes scopes' : Scopes),
        (fresh.parse "group(\"b) (c\", 0.5);").1 = .ok program ∧
        ((new 1 {} opened.clock).parse "\x7b\n group(\"b) (c\", 0.5); \x7d").1 = .ok program' ∧
        program.occurrence? [0] = some (.statement statement, scopes) ∧
        program'.occurrence? [0, 0] = some (.statement statement', scopes') ∧
        (∀ number ∈ statement.numbers, number.isFinite = true) ∧
        (∀ number ∈ statement'.numbers, number.isFinite = true) ∧
        statement.text = "(; (call group \"b) (c\" 0.5))" ∧
        statement'.text = "(; (call group \"b) (c\" 0.5))" ∧
        Stmt.Related Token.ReadsLike statement statement' := by
  have hfirst : fresh.Reachable := .new 0 {} _
  have hsecond : (new 1 {} opened.clock).Reachable := .new 1 {} _
  -- The kernel computes the number; what follows does not open it.
  have htokens : (fresh.lexed "group(\"b) (c\", 0.5);").diagnostics = {} ∧
      (fresh.lexed "group(\"b) (c\", 0.5);").tokens =
        [⟨.identifier, ⟨0, 17, "group"⟩, none, 1⟩, ⟨.leftParen, ⟨0, 18, "("⟩, none, 1⟩,
          ⟨.string, ⟨0, 19, "\"b) (c\""⟩, some (.string "b) (c"), 1⟩,
          ⟨.comma, ⟨0, 20, ","⟩, none, 1⟩,
          ⟨.number, ⟨0, 21, "0.5"⟩, some (.number ⟨0x3fe0000000000000⟩), 1⟩,
          ⟨.rightParen, ⟨0, 22, ")"⟩, none, 1⟩, ⟨.semicolon, ⟨0, 23, ";"⟩, none, 1⟩,
          ⟨.endOfText, ⟨0, 24, ""⟩, none, 1⟩] := by decide +kernel
  have htokens' :
      ((new 1 {} opened.clock).lexed "\x7b\n group(\"b) (c\", 0.5); \x7d").diagnostics = {} ∧
      ((new 1 {} opened.clock).lexed "\x7b\n group(\"b) (c\", 0.5); \x7d").tokens =
        [⟨.leftBrace, ⟨1, 17, "\x7b"⟩, none, 1⟩, ⟨.identifier, ⟨1, 18, "group"⟩, none, 2⟩,
          ⟨.leftParen, ⟨1, 19, "("⟩, none, 2⟩,
          ⟨.string, ⟨1, 20, "\"b) (c\""⟩, some (.string "b) (c"), 2⟩,
          ⟨.comma, ⟨1, 21, ","⟩, none, 2⟩,
          ⟨.number, ⟨1, 22, "0.5"⟩, some (.number ⟨0x3fe0000000000000⟩), 2⟩,
          ⟨.rightParen, ⟨1, 23, ")"⟩, none, 2⟩, ⟨.semicolon, ⟨1, 24, ";"⟩, none, 2⟩,
          ⟨.rightBrace, ⟨1, 25, "\x7d"⟩, none, 2⟩, ⟨.endOfText, ⟨1, 26, ""⟩, none, 2⟩] := by
    decide +kernel
  have hparse : (fresh.parse "group(\"b) (c\", 0.5);").1 =
      .ok [.expression (.call (.var ⟨.identifier, ⟨0, 17, "group"⟩, none, 1⟩)
        ⟨.rightParen, ⟨0, 22, ")"⟩, none, 1⟩
        [.constant (.string "b) (c"), .constant (.number ⟨0x3fe0000000000000⟩)])] := by
    unfold parse
    dsimp only
    rw [← lexed, htokens.1, htokens.2]
    rfl
  have hparse' : ((new 1 {} opened.clock).parse "\x7b\n group(\"b) (c\", 0.5); \x7d").1 =
      .ok [.block [.expression (.call (.var ⟨.identifier, ⟨1, 18, "group"⟩, none, 2⟩)
        ⟨.rightParen, ⟨1, 23, ")"⟩, none, 2⟩
        [.constant (.string "b) (c"), .constant (.number ⟨0x3fe0000000000000⟩)])]] := by
    unfold parse
    dsimp only
    rw [← lexed, htokens'.1, htokens'.2]
    rfl
  have hfinite : (Number.mk 0x3fe0000000000000).isFinite = true := by decide +kernel
  have hnumbers {number : Number} (h : number ∈ [Number.mk 0x3fe0000000000000]) :
      number.isFinite = true := List.mem_singleton.mp h ▸ hfinite
  refine ⟨hfirst, hsecond, _, _, _, _, _, _, hparse, hparse', rfl, rfl, fun _ => hnumbers,
    fun _ => hnumbers, by decide +kernel, by decide +kernel, ?_⟩
  exact occurrence_related_of_text_eq hfirst hsecond hparse hparse'
    (show Program.occurrence? _ [0] = _ from rfl) (show Program.occurrence? _ [0, 0] = _ from rfl)
    (fun _ => hnumbers) (fun _ => hnumbers) rfl

end Interpreter

end Treewalk
