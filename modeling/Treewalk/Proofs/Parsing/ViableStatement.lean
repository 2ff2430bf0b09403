import Treewalk.Proofs.Parsing.StatementComplete
import Treewalk.Proofs.Parsing.ViableExpression

/-!
The parsers of statements and declarations take nothing in vain. Behind a conditional without an
alternative the parser tries one, and a block goes on as long as its closing brace does not come;
so these, too, leave no attempt out.
-/

namespace Treewalk.Parser

open Computability
open Token (ofKinds)
open Clause (Place)

variable {ι : Type} {limit : Nat} {nested : ι → Parser Stmt} {bound : ι → Nat}

theorem expressionStatement_viable (hbound : ∀ i, limit ≤ bound i) :
    Viable limit (Level.assignment.language * ofKinds [.semicolon])
      fun i => expressionStatement (bound i) :=
  (expression_viable bound hbound).bind fun value =>
    expect_then_viable .semicolon "after expression" (by simp) (Stmt.expression value)

theorem printStatement_viable (hbound : ∀ i, limit ≤ bound i) :
    Viable limit (Level.assignment.language * ofKinds [.semicolon])
      fun i => printStatement (bound i) :=
  (expression_viable bound hbound).bind fun value =>
    expect_then_viable .semicolon "after value" (by simp) (Stmt.print value)

theorem declaredName_viable :
    Viable limit (ofKinds [.identifier]) fun _ : ι => declaredName := by
  have hname : Viable limit (ofKinds [.identifier] * 1 + ofKinds [.identifier])
      fun _ : ι => declaredName :=
    .accept (by simp) (fun name _ => .pure name) (.fail rfl (Token.exists_mem_ofKinds _))
  rwa [mul_one, add_idem] at hname

theorem optionally_viable (hbound : ∀ i, limit ≤ bound i) :
    Viable limit Level.assignment.language fun i => some <$> expression (bound i) :=
  (expression_viable bound hbound).map some

theorem initialValue_viable (hbound : ∀ i, limit ≤ bound i) :
    Viable limit (ofKinds [.equal] * Level.assignment.language + 1)
      fun i => initialValue (bound i) :=
  .accept (by simp) (fun _ _ => optionally_viable hbound) (.pure none)

theorem declareVariable_viable (hbound : ∀ i, limit ≤ bound i) :
    Viable limit (ofKinds [.identifier] *
      ((ofKinds [.equal] * Level.assignment.language + 1) * ofKinds [.semicolon]))
      fun i => declareVariable (bound i) :=
  declaredName_viable.bind fun name => (initialValue_viable hbound).bind fun initial =>
    expect_then_viable .semicolon "after variable declaration" (by simp)
      (Stmt.declare name initial)

theorem declaration_viable (hnested : Viable limit Place.statement.language nested)
    (hbound : ∀ i, limit ≤ bound i) :
    Viable limit Place.declaration.language fun i => Parser.declaration (nested i) (bound i) := by
  have hdeclaration : Viable limit _ fun i => Parser.declaration (nested i) (bound i) :=
    .accept (by simp) (fun _ _ => declareVariable_viable hbound) hnested
  refine hdeclaration.mono (add_le ?_ Place.statement_le)
  exact Declaration.le_language.trans Place.declare_le

theorem blockBody_viable {item : ι → Parser Stmt}
    (hitem : Viable limit Place.declaration.language item) (hbound : ∀ i, limit ≤ bound i)
    (done : List Stmt) :
    Viable limit Place.declaration.language∗ fun i => blockBody (item i) (bound i) done := by
  induction limit generalizing bound done with
  | zero => exact .zero ⟨[], Language.nil_mem_kstar _⟩
  | succ limit ih =>
      obtain ⟨fewer, rfl, hfewer⟩ := exists_succ hbound
      refine .peek (fun token => ?_) ⟨[], Language.nil_mem_kstar _⟩
      cases token.kind == .rightBrace || token.isEnd with
      | true => exact (Viable.pure done.reverse).mono one_le_kstar
      | false =>
          have hmore := hitem.bind_of_nil_not_mem
            (fun first => ih (hitem.of_le (Nat.le_succ limit)) hfewer (first :: done))
            (Place.nil_not_mem_language _)
          exact hmore.mono mul_kstar_le_kstar

theorem block_viable (hnested : Viable limit Place.statement.language nested)
    (hbound : ∀ i, limit ≤ bound i) :
    Viable limit (Place.declaration.language∗ * ofKinds [.rightBrace])
      fun i => block (nested i) (bound i) :=
  (blockBody_viable (declaration_viable hnested hbound) hbound []).bind fun body =>
    expect_then_viable .rightBrace "after block" (by simp) (Stmt.block body)

theorem alternative_viable (hnested : Viable limit Place.statement.language nested) :
    Viable limit (ofKinds [.elseWord] * Place.statement.language + 1)
      fun i => alternative (nested i) :=
  .accept (by simp) (fun _ _ => hnested.map some) (.pure none)

theorem conditional_viable (hnested : Viable limit Place.statement.language nested)
    (hbound : ∀ i, limit ≤ bound i) :
    Viable limit (ofKinds [.leftParen] * (Level.assignment.language * (ofKinds [.rightParen] *
      (Place.statement.language * (ofKinds [.elseWord] * Place.statement.language + 1)))))
      fun i => conditional (nested i) (bound i) :=
  (Viable.expect _ (by simp)).bind fun _ => (expression_viable bound hbound).bind fun condition =>
    (Viable.expect _ (by simp)).bind fun _ => hnested.bind fun consequent =>
      (alternative_viable hnested).map (Stmt.conditional condition consequent)

theorem whileLoop_viable (hnested : Viable limit Place.statement.language nested)
    (hbound : ∀ i, limit ≤ bound i) :
    Viable limit (ofKinds [.leftParen] * (Level.assignment.language * (ofKinds [.rightParen] *
      Place.statement.language))) fun i => whileLoop (nested i) (bound i) :=
  (Viable.expect _ (by simp)).bind fun _ => (expression_viable bound hbound).bind fun condition =>
    (Viable.expect _ (by simp)).bind fun _ => hnested.map (Stmt.loop condition)

theorem initialClause_viable (hbound : ∀ i, limit ≤ bound i) :
    Viable limit Initial.language fun i => initialClause (bound i) := by
  have hinitial : Viable limit _ fun i => initialClause (bound i) :=
    .accept (by simp) (fun _ _ => .pure none) <|
      .accept (by simp) (fun _ _ => (declareVariable_viable hbound).map some)
        ((expressionStatement_viable hbound).map some)
  rw [mul_one] at hinitial
  exact (hinitial.mono (add_le_add_right (add_le_add_left Declaration.le_language _) _)).mono
    Initial.le_language

theorem optionalExpression_viable (hbound : ∀ i, limit ≤ bound i) (closing : TokenKind) :
    Viable limit (1 + Level.assignment.language)
      fun i => optionalExpression (bound i) closing :=
  .check (.pure none) (optionally_viable hbound)

theorem forLoop_viable (hnested : Viable limit Place.statement.language nested)
    (hbound : ∀ i, limit ≤ bound i) :
    Viable limit (ofKinds [.leftParen] * (Initial.language *
      ((1 + Level.assignment.language) * (ofKinds [.semicolon] *
        ((1 + Level.assignment.language) * (ofKinds [.rightParen] * Place.statement.language))))))
      fun i => forLoop (nested i) (bound i) :=
  (Viable.expect _ (by simp)).bind fun _ => (initialClause_viable hbound).bind fun initial =>
    (optionalExpression_viable hbound _).bind fun condition =>
      (Viable.expect _ (by simp)).bind fun _ =>
        (optionalExpression_viable hbound _).bind fun increment =>
          (Viable.expect _ (by simp)).bind fun _ =>
            hnested.map (Stmt.counting initial condition increment)

/-- A statement that begins with a keyword. -/
theorem keyword_answers {parser : ι → Parser Stmt} {language : Language Token} {kind : TokenKind}
    (hparser : Viable limit language parser)
    (hle : ofKinds [kind] * language ≤ Place.statement.language)
    (hafter : ∀ i, afterKeyword (nested i) (bound i) kind = some (parser i))
    (hplain : kind ≠ .endOfText) {token : Token} {rest : List Token}
    (hend : ∃ last ∈ token :: rest, last.isEnd = true) (hlength : rest.length ≤ limit)
    (hkind : token.kind = kind) :
    Answers Place.statement.language (fun i => statementOver (nested i) (bound i))
      (token :: rest) := by
  subst hkind
  have hanswers := hparser.answers_cons hend hlength (by simpa [Token.isEnd] using hplain)
    (Token.mem_ofKinds (List.mem_singleton.mpr rfl)) fun i cursor behind =>
      statementOver_keyword (hafter i) cursor behind
  exact hanswers.mono hle

theorem statementOver_other {nested : Parser Stmt} {bound : Nat} {token : Token}
    (h : afterKeyword nested bound token.kind = none) (cursor : Cursor) (rest : List Token) :
    statementOver nested bound (cursor.before (token :: rest)) =
      expressionStatement bound (cursor.before (token :: rest)) := by
  rw [statementOver, bind_eq_of_ok (peek_before cursor token rest)]
  generalize token.kind = kind at h
  refine congrFun ?_ _
  split <;> first | contradiction | rfl

theorem statementOver_viable (hnested : Viable limit Place.statement.language nested)
    (hbound : ∀ i, limit + 1 ≤ bound i) :
    Viable (limit + 1) Place.statement.language
      fun i => statementOver (nested i) (bound i) := by
  refine .of_first (Place.exists_mem_language _) fun token rest hend hlength => ?_
  have hlower (i : ι) : limit ≤ bound i := Nat.le_of_succ_le (hbound i)
  have hrest := Nat.le_of_lt_succ hlength
  by_cases hprint : token.kind = .printWord
  · exact keyword_answers (printStatement_viable hlower) Place.print_le (fun _ => rfl) (by simp)
      hend hrest hprint
  by_cases hblock : token.kind = .leftBrace
  · exact keyword_answers (block_viable hnested hlower) Place.block_le (fun _ => rfl) (by simp)
      hend hrest hblock
  by_cases hif : token.kind = .ifWord
  · exact keyword_answers (conditional_viable hnested hlower)
      ((Heading.mul_le _).trans Place.conditional_le) (fun _ => rfl) (by simp) hend hrest hif
  by_cases hwhile : token.kind = .whileWord
  · exact keyword_answers (whileLoop_viable hnested hlower)
      ((Heading.mul_le _).trans Place.whileLoop_le) (fun _ => rfl) (by simp) hend hrest hwhile
  by_cases hfor : token.kind = .forWord
  · exact keyword_answers (forLoop_viable hnested hlower)
      ((Counting.mul_le _).trans Place.forLoop_le) (fun _ => rfl) (by simp) hend hrest hfor
  have hexpression := (expressionStatement_viable hbound).answers _ hend hlength
  refine (hexpression.mono Place.expression_le).congr fun i cursor behind => ?_
  refine statementOver_other ?_ cursor behind
  generalize token.kind = kind at hprint hblock hif hwhile hfor
  unfold afterKeyword
  split <;> first | contradiction | rfl

theorem statement_viable (bound : ι → Nat) (hbound : ∀ i, limit ≤ bound i) :
    Viable limit Place.statement.language fun i => statement (bound i) := by
  induction limit generalizing bound with
  | zero => exact .zero (Place.exists_mem_language _)
  | succ limit ih =>
      obtain ⟨fewer, rfl, hfewer⟩ := exists_succ hbound
      exact statementOver_viable (ih fewer hfewer) hbound

end Treewalk.Parser
