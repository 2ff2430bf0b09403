import Treewalk.Parsing.Program
import Treewalk.Proofs.Parsing.Steps
import Treewalk.Proofs.Tree.Related

/-!
The parser looks at nothing but the kinds and literals of tokens. So it goes the same way on two
lists of tokens that agree in these, and whatever else relates the tokens relates the trees.
-/

namespace Treewalk

/-- How the tokens of one reading and what is reported of them relate to those of another. -/
structure Correspondence where
  token : Token → Token → Prop
  diagnostics : Diagnostics → Diagnostics → Prop
  kind_eq : ∀ {left right}, token left right → left.kind = right.kind
  literal_eq : ∀ {left right}, token left right → left.literal = right.literal
  report : ∀ {left right before after} (error : GrammarError), token left right →
    diagnostics before after → diagnostics (before.grammar left error) (after.grammar right error)

namespace Correspondence

theorem isEnd_eq (related : Correspondence) {left right : Token} (h : related.token left right) :
    left.isEnd = right.isEnd := by
  rw [Token.isEnd, Token.isEnd, related.kind_eq h]

theorem ofToken?_eq (related : Correspondence) {left right : Token}
    (h : related.token left right) : Constant.ofToken? left = Constant.ofToken? right := by
  rw [Constant.ofToken?, Constant.ofToken?, related.kind_eq h, related.literal_eq h]

end Correspondence

structure Cursor.Corresponds (related : Correspondence) (left right : Cursor) : Prop where
  rest : List.Forall₂ related.token left.rest right.rest
  diagnostics : related.diagnostics left.diagnostics right.diagnostics
  failed_eq : left.failed = right.failed

namespace Parser

variable {α β α' β' : Type}

inductive EndsAlike (related : Correspondence) (valued : α → β → Prop) :
    EStateM.Result Interrupt Cursor α → EStateM.Result Interrupt Cursor β → Prop
  | ok {value : α} {other : β} {left right : Cursor} : valued value other →
      Cursor.Corresponds related left right →
      EndsAlike related valued (.ok value left) (.ok other right)
  | abort {token other : Token} {error : GrammarError} {left right : Cursor} :
      related.token token other → Cursor.Corresponds related left right →
      EndsAlike related valued (.error (.abort token error) left)
        (.error (.abort other error) right)
  | fault {fault : Fault} {left right : Cursor} : Cursor.Corresponds related left right →
      EndsAlike related valued (.error (.fault fault) left) (.error (.fault fault) right)

/-- On corresponding cursors, two parsers end in the same way. -/
def InStep (related : Correspondence) (valued : α → β → Prop) (left : Parser α)
    (right : Parser β) : Prop :=
  ∀ ⦃start start' : Cursor⦄, Cursor.Corresponds related start start' →
    EndsAlike related valued (left start) (right start')

variable {related : Correspondence} {valued : α → β → Prop} {valued' : α' → β' → Prop}

theorem InStep.pure {value : α} {other : β} (h : valued value other) :
    InStep related valued (Pure.pure value) (Pure.pure other) :=
  fun _ _ hstart => .ok h hstart

theorem InStep.bind {first : Parser α} {first' : Parser β} {next : α → Parser α'}
    {next' : β → Parser β'} (hfirst : InStep related valued first first')
    (hnext : ∀ value other, valued value other →
      InStep related valued' (next value) (next' other)) :
    InStep related valued' (first >>= next) (first' >>= next') := by
  intro start start' hstart
  have h := hfirst hstart
  simp only [Bind.bind, EStateM.bind]
  generalize first start = result at h
  generalize first' start' = result' at h
  cases h with
  | ok hvalue hafter => exact hnext _ _ hvalue hafter
  | abort htoken hafter => exact .abort htoken hafter
  | fault hafter => exact .fault hafter

theorem InStep.map {parser : Parser α} {parser' : Parser β} {change : α → α'}
    {change' : β → β'} (h : InStep related valued parser parser')
    (hchange : ∀ value other, valued value other → valued' (change value) (change' other)) :
    InStep related valued' (change <$> parser) (change' <$> parser') := by
  intro start start' hstart
  have hresult := h hstart
  simp only [Functor.map, EStateM.map]
  generalize parser start = result at hresult
  generalize parser' start' = result' at hresult
  cases hresult with
  | ok hvalue hafter => exact .ok (hchange _ _ hvalue) hafter
  | abort htoken hafter => exact .abort htoken hafter
  | fault hafter => exact .fault hafter

theorem peek_inStep : InStep related related.token peek peek := by
  intro start start' hstart
  obtain ⟨hrest, hdiagnostics, hfailed⟩ := hstart
  obtain ⟨rest, diagnostics, failed⟩ := start
  obtain ⟨rest', diagnostics', failed'⟩ := start'
  cases hrest with
  | nil => exact .fault ⟨.nil, hdiagnostics, hfailed⟩
  | cons htoken hrest => exact .ok htoken ⟨.cons htoken hrest, hdiagnostics, hfailed⟩

theorem advance_inStep : InStep related (fun _ _ => True) advance advance := by
  intro start start' hstart
  refine .ok trivial ?_
  obtain ⟨hrest, hdiagnostics, hfailed⟩ := hstart
  obtain ⟨rest, diagnostics, failed⟩ := start
  obtain ⟨rest', diagnostics', failed'⟩ := start'
  simp only at hrest
  cases hrest with
  | nil => exact ⟨.nil, hdiagnostics, hfailed⟩
  | @cons token token' rest rest' htoken hrest =>
      simp only [Cursor.advance, related.isEnd_eq htoken]
      cases token'.isEnd with
      | true => exact ⟨.cons htoken hrest, hdiagnostics, hfailed⟩
      | false => exact ⟨hrest, hdiagnostics, hfailed⟩

theorem report_inStep {token token' : Token} (htoken : related.token token token')
    (error : GrammarError) :
    InStep related (fun _ _ => True) (report token error) (report token' error) :=
  fun _ _ hstart =>
    .ok trivial ⟨hstart.rest, related.report error htoken hstart.diagnostics, rfl⟩

theorem fail_inStep (error : GrammarError) : InStep related valued (fail error) (fail error) :=
  peek_inStep.bind fun _ _ htoken _ _ hstart => .abort htoken hstart

theorem exceeded_inStep : InStep related valued exceeded exceeded :=
  fun _ _ hstart => .fault hstart

theorem check_inStep (kind : TokenKind) : InStep related Eq (check kind) (check kind) := by
  refine peek_inStep.bind fun token token' htoken => .pure ?_
  rw [related.kind_eq htoken]

theorem accept_inStep (kinds : List TokenKind) :
    InStep related (Option.Rel related.token) (accept kinds) (accept kinds) := by
  apply peek_inStep.bind
  intro token token' htoken
  rw [related.kind_eq htoken]
  split
  · exact advance_inStep.bind fun _ _ _ => .pure (.some htoken)
  · exact .pure .none

theorem expect_inStep (kind : TokenKind) (place : String) :
    InStep related related.token (expect kind place) (expect kind place) := by
  apply peek_inStep.bind
  intro token token' htoken
  rw [related.kind_eq htoken]
  split
  · exact advance_inStep.bind fun _ _ _ => .pure htoken
  · exact fail_inStep _

/-! Expressions. -/

variable {nested nested' : Parser Expr}

theorem primary_inStep (hnested : InStep related (Expr.Related related.token) nested nested') :
    InStep related (Expr.Related related.token) (primary nested) (primary nested') := by
  apply peek_inStep.bind
  intro token token' htoken
  rw [related.kind_eq htoken, related.ofToken?_eq htoken]
  generalize token'.kind = kind
  generalize Constant.ofToken? token' = value
  split
  · exact advance_inStep.bind fun _ _ _ => .pure (.var htoken)
  · refine advance_inStep.bind fun _ _ _ => hnested.bind fun _ _ hinner => ?_
    exact (expect_inStep _ _).bind fun _ _ _ => .pure (.group hinner)
  · exact advance_inStep.bind fun _ _ _ => .pure (.constant _)
  · exact fail_inStep _

theorem limitArguments_inStep (count : Nat) :
    InStep related (fun _ _ => True) (limitArguments count) (limitArguments count) := by
  unfold limitArguments
  split
  · exact peek_inStep.bind fun _ _ htoken => report_inStep htoken _
  · exact .pure trivial

theorem arguments_inStep (hnested : InStep related (Expr.Related related.token) nested nested')
    (bound : Nat) {done done' : List Expr} (hdone : Expr.RelatedRow related.token done done') :
    InStep related (Expr.RelatedRow related.token) (arguments nested bound done)
      (arguments nested' bound done') := by
  induction bound generalizing done done' with
  | zero => exact exceeded_inStep
  | succ bound ih =>
      have hlength := (Expr.relatedRow_iff.mp hdone).length_eq
      unfold arguments
      rw [hlength]
      refine (limitArguments_inStep _).bind fun _ _ _ => hnested.bind fun _ _ hargument => ?_
      apply (accept_inStep _).bind
      intro _ _ haccepted
      cases haccepted with
      | some _ => exact ih (.cons hargument hdone)
      | none =>
          refine .pure (Expr.relatedRow_iff.mpr ?_)
          exact List.rel_reverse (Expr.relatedRow_iff.mp (.cons hargument hdone))

theorem argumentList_inStep (hnested : InStep related (Expr.Related related.token) nested nested')
    (bound : Nat) : InStep related (Expr.RelatedRow related.token) (argumentList nested bound)
      (argumentList nested' bound) := by
  apply (check_inStep _).bind
  rintro found _ rfl
  split
  · exact .pure .nil
  · exact arguments_inStep hnested bound .nil

theorem finishCall_inStep (hnested : InStep related (Expr.Related related.token) nested nested')
    (bound : Nat) {callee callee' : Expr} (hcallee : Expr.Related related.token callee callee') :
    InStep related (Expr.Related related.token) (finishCall nested bound callee)
      (finishCall nested' bound callee') := by
  apply (argumentList_inStep hnested bound).bind
  intro _ _ harguments
  exact (expect_inStep _ _).bind fun _ _ hclosing => .pure (.call hcallee hclosing harguments)

theorem calls_inStep (hnested : InStep related (Expr.Related related.token) nested nested')
    (bound : Nat) {callee callee' : Expr} (hcallee : Expr.Related related.token callee callee') :
    InStep related (Expr.Related related.token) (calls nested bound callee)
      (calls nested' bound callee') := by
  induction bound generalizing callee callee' with
  | zero => exact exceeded_inStep
  | succ bound ih =>
      apply (accept_inStep _).bind
      intro _ _ haccepted
      cases haccepted with
      | some _ => exact (finishCall_inStep hnested _ hcallee).bind fun _ _ hcall => ih hcall
      | none => exact .pure hcallee

theorem call_inStep (hnested : InStep related (Expr.Related related.token) nested nested')
    (bound : Nat) :
    InStep related (Expr.Related related.token) (call nested bound) (call nested' bound) :=
  (primary_inStep hnested).bind fun _ _ hcallee => calls_inStep hnested bound hcallee

theorem unary_inStep (hnested : InStep related (Expr.Related related.token) nested nested')
    (bound : Nat) :
    InStep related (Expr.Related related.token) (unary nested bound) (unary nested' bound) := by
  induction bound with
  | zero => exact exceeded_inStep
  | succ bound ih =>
      apply (accept_inStep _).bind
      intro _ _ haccepted
      cases haccepted with
      | some hoperator => exact ih.bind fun _ _ hoperand => .pure (.unary hoperator hoperand)
      | none => exact call_inStep hnested _

theorem chain_inStep {node : Expr → Token → Expr → Expr} {operand operand' : Parser Expr}
    (hnode : ∀ {left left' right right' operator operator'},
      Expr.Related related.token left left' → related.token operator operator' →
      Expr.Related related.token right right' →
      Expr.Related related.token (node left operator right) (node left' operator' right'))
    (hoperand : InStep related (Expr.Related related.token) operand operand')
    (operators : List TokenKind) (bound : Nat) {left left' : Expr}
    (hleft : Expr.Related related.token left left') :
    InStep related (Expr.Related related.token) (chain operators node operand bound left)
      (chain operators node operand' bound left') := by
  induction bound generalizing left left' with
  | zero => exact exceeded_inStep
  | succ bound ih =>
      apply (accept_inStep _).bind
      intro _ _ haccepted
      cases haccepted with
      | some hoperator => exact hoperand.bind fun _ _ hright => ih (hnode hleft hoperator hright)
      | none => exact .pure hleft

theorem leftAssociative_inStep {node : Expr → Token → Expr → Expr} {operand operand' : Parser Expr}
    (hnode : ∀ {left left' right right' operator operator'},
      Expr.Related related.token left left' → related.token operator operator' →
      Expr.Related related.token right right' →
      Expr.Related related.token (node left operator right) (node left' operator' right'))
    (hoperand : InStep related (Expr.Related related.token) operand operand')
    (operators : List TokenKind) (bound : Nat) :
    InStep related (Expr.Related related.token) (leftAssociative operators node operand bound)
      (leftAssociative operators node operand' bound) :=
  hoperand.bind fun _ _ hleft => chain_inStep hnode hoperand operators bound hleft

theorem disjunction_inStep (hnested : InStep related (Expr.Related related.token) nested nested')
    (bound : Nat) : InStep related (Expr.Related related.token) (disjunction nested bound)
      (disjunction nested' bound) := by
  have hproduct := leftAssociative_inStep .binary (unary_inStep hnested bound) [.star, .slash] bound
  have hsum := leftAssociative_inStep .binary hproduct [.plus, .minus] bound
  have hcomparison := leftAssociative_inStep .binary hsum
    [.greater, .greaterEqual, .less, .lessEqual] bound
  have hequality := leftAssociative_inStep .binary hcomparison [.equalEqual, .bangEqual] bound
  have hconjunction := leftAssociative_inStep .logical hequality [.andWord] bound
  exact leftAssociative_inStep .logical hconjunction [.orWord] bound

theorem assignment_inStep (hnested : InStep related (Expr.Related related.token) nested nested')
    (bound : Nat) : InStep related (Expr.Related related.token) (assignment nested bound)
      (assignment nested' bound) := by
  apply (disjunction_inStep hnested bound).bind
  intro target target' htarget
  apply (accept_inStep _).bind
  intro _ _ haccepted
  cases haccepted with
  | none => exact .pure htarget
  | some hequals =>
      apply hnested.bind
      intro value value' hvalue
      have hreport : InStep related (Expr.Related related.token)
          (do report _ .invalidAssignmentTarget; return target)
          (do report _ .invalidAssignmentTarget; return target') :=
        (report_inStep hequals _).bind fun _ _ _ => .pure htarget
      cases htarget with
      | var hname => exact .pure (.assign hname hvalue)
      | constant | group | unary | binary | logical | assign | call => exact hreport

theorem expression_inStep (related : Correspondence) (bound : Nat) :
    InStep related (Expr.Related related.token) (expression bound) (expression bound) := by
  induction bound with
  | zero => exact exceeded_inStep
  | succ bound ih => exact assignment_inStep ih (bound + 1)

/-! Statements. -/

theorem expressionStatement_inStep (related : Correspondence) (bound : Nat) :
    InStep related (Stmt.Related related.token) (expressionStatement bound)
      (expressionStatement bound) :=
  (expression_inStep related bound).bind fun _ _ hvalue =>
    (expect_inStep _ _).bind fun _ _ _ => .pure (.expression hvalue)

theorem printStatement_inStep (related : Correspondence) (bound : Nat) :
    InStep related (Stmt.Related related.token) (printStatement bound) (printStatement bound) :=
  (expression_inStep related bound).bind fun _ _ hvalue =>
    (expect_inStep _ _).bind fun _ _ _ => .pure (.print hvalue)

theorem optionally_inStep (related : Correspondence) (bound : Nat) :
    InStep related (Option.Rel (Expr.Related related.token)) (some <$> expression bound)
      (some <$> expression bound) :=
  (expression_inStep related bound).map fun _ _ => .some

theorem declaredName_inStep : InStep related related.token declaredName declaredName := by
  apply (accept_inStep _).bind
  intro _ _ haccepted
  cases haccepted with
  | some hname => exact .pure hname
  | none => exact fail_inStep _

theorem initialValue_inStep (related : Correspondence) (bound : Nat) :
    InStep related (Option.Rel (Expr.Related related.token)) (initialValue bound)
      (initialValue bound) := by
  apply (accept_inStep _).bind
  intro _ _ haccepted
  cases haccepted with
  | some _ => exact optionally_inStep related bound
  | none => exact .pure .none

theorem declareVariable_inStep (related : Correspondence) (bound : Nat) :
    InStep related (Stmt.Related related.token) (declareVariable bound)
      (declareVariable bound) := by
  apply declaredName_inStep.bind
  intro _ _ hname
  apply (initialValue_inStep related bound).bind
  intro _ _ hinitial
  refine (expect_inStep _ _).bind fun _ _ _ => .pure ?_
  cases hinitial with
  | some hvalue => exact .declareAs hname hvalue
  | none => exact .declare hname

variable {inner inner' : Parser Stmt}

theorem declaration_inStep (hinner : InStep related (Stmt.Related related.token) inner inner')
    (bound : Nat) : InStep related (Stmt.Related related.token) (declaration inner bound)
      (declaration inner' bound) := by
  apply (accept_inStep _).bind
  intro _ _ haccepted
  cases haccepted with
  | some _ => exact declareVariable_inStep related bound
  | none => exact hinner

theorem blockBody_inStep {item item' : Parser Stmt}
    (hitem : InStep related (Stmt.Related related.token) item item') (bound : Nat)
    {done done' : List Stmt} (hdone : Stmt.RelatedRow related.token done done') :
    InStep related (Stmt.RelatedRow related.token) (blockBody item bound done)
      (blockBody item' bound done') := by
  induction bound generalizing done done' with
  | zero => exact exceeded_inStep
  | succ bound ih =>
      apply peek_inStep.bind
      intro token token' htoken
      rw [related.kind_eq htoken, related.isEnd_eq htoken]
      split
      · exact .pure (Stmt.relatedRow_iff.mpr (List.rel_reverse (Stmt.relatedRow_iff.mp hdone)))
      · exact hitem.bind fun _ _ hvalue => ih (.cons hvalue hdone)

theorem block_inStep (hinner : InStep related (Stmt.Related related.token) inner inner')
    (bound : Nat) :
    InStep related (Stmt.Related related.token) (block inner bound) (block inner' bound) := by
  apply (blockBody_inStep (declaration_inStep hinner bound) bound .nil).bind
  intro _ _ hbody
  exact (expect_inStep _ _).bind fun _ _ _ => .pure (.block hbody)

theorem alternative_inStep (hinner : InStep related (Stmt.Related related.token) inner inner') :
    InStep related (Option.Rel (Stmt.Related related.token)) (alternative inner)
      (alternative inner') := by
  apply (accept_inStep _).bind
  intro _ _ haccepted
  cases haccepted with
  | some _ => exact hinner.map fun _ _ => .some
  | none => exact .pure .none

theorem conditional_inStep (hinner : InStep related (Stmt.Related related.token) inner inner')
    (bound : Nat) : InStep related (Stmt.Related related.token) (conditional inner bound)
      (conditional inner' bound) := by
  apply (expect_inStep _ _).bind
  intro _ _ _
  apply (expression_inStep related bound).bind
  intro _ _ hcondition
  refine (expect_inStep _ _).bind fun _ _ _ => hinner.bind fun _ _ hconsequent => ?_
  refine (alternative_inStep hinner).bind fun _ _ halternative => .pure ?_
  cases halternative with
  | some halternative => exact .choice hcondition hconsequent halternative
  | none => exact .conditional hcondition hconsequent

theorem whileLoop_inStep (hinner : InStep related (Stmt.Related related.token) inner inner')
    (bound : Nat) : InStep related (Stmt.Related related.token) (whileLoop inner bound)
      (whileLoop inner' bound) := by
  apply (expect_inStep _ _).bind
  intro _ _ _
  apply (expression_inStep related bound).bind
  intro _ _ hcondition
  exact (expect_inStep _ _).bind fun _ _ _ => hinner.bind fun _ _ hbody =>
    .pure (.loop hcondition hbody)

theorem initialClause_inStep (related : Correspondence) (bound : Nat) :
    InStep related (Option.Rel (Stmt.Related related.token)) (initialClause bound)
      (initialClause bound) := by
  apply (accept_inStep _).bind
  intro _ _ haccepted
  cases haccepted with
  | some _ => exact .pure .none
  | none =>
      apply (accept_inStep _).bind
      intro _ _ haccepted
      cases haccepted with
      | some _ => exact (declareVariable_inStep related bound).map fun _ _ => .some
      | none => exact (expressionStatement_inStep related bound).map fun _ _ => .some

theorem optionalExpression_inStep (related : Correspondence) (bound : Nat)
    (closing : TokenKind) :
    InStep related (Option.Rel (Expr.Related related.token)) (optionalExpression bound closing)
      (optionalExpression bound closing) := by
  apply (check_inStep _).bind
  rintro found _ rfl
  split
  · exact .pure .none
  · exact optionally_inStep related bound

theorem forLoop_inStep (hinner : InStep related (Stmt.Related related.token) inner inner')
    (bound : Nat) :
    InStep related (Stmt.Related related.token) (forLoop inner bound) (forLoop inner' bound) := by
  apply (expect_inStep _ _).bind
  intro _ _ _
  apply (initialClause_inStep related bound).bind
  intro _ _ hinitial
  apply (optionalExpression_inStep related bound _).bind
  intro _ _ hcondition
  apply (expect_inStep _ _).bind
  intro _ _ _
  apply (optionalExpression_inStep related bound _).bind
  intro _ _ hincrement
  exact (expect_inStep _ _).bind fun _ _ _ => hinner.bind fun _ _ hbody =>
    .pure (.counting hinitial hcondition hincrement hbody)

theorem statementOver_inStep (hinner : InStep related (Stmt.Related related.token) inner inner')
    (bound : Nat) : InStep related (Stmt.Related related.token) (statementOver inner bound)
      (statementOver inner' bound) := by
  apply peek_inStep.bind
  intro token token' htoken
  rw [related.kind_eq htoken]
  generalize token'.kind = kind
  split
  · exact advance_inStep.bind fun _ _ _ => printStatement_inStep related bound
  · exact advance_inStep.bind fun _ _ _ => block_inStep hinner bound
  · exact advance_inStep.bind fun _ _ _ => conditional_inStep hinner bound
  · exact advance_inStep.bind fun _ _ _ => whileLoop_inStep hinner bound
  · exact advance_inStep.bind fun _ _ _ => forLoop_inStep hinner bound
  · exact expressionStatement_inStep related bound

theorem statement_inStep (related : Correspondence) (bound : Nat) :
    InStep related (Stmt.Related related.token) (statement bound) (statement bound) := by
  induction bound with
  | zero => exact exceeded_inStep
  | succ bound ih => exact statementOver_inStep ih (bound + 1)

end Parser

/-! Programs. -/

theorem nextBeginning_corresponds {related : Correspondence} {tokens tokens' : List Token}
    (h : List.Forall₂ related.token tokens tokens') {previous previous' : Token}
    (hprevious : related.token previous previous') :
    List.Forall₂ related.token (nextBeginning previous tokens)
      (nextBeginning previous' tokens') := by
  induction h generalizing previous previous' with
  | nil => exact .nil
  | cons htoken hrest ih =>
      simp only [nextBeginning, related.isEnd_eq htoken, related.kind_eq htoken,
        related.kind_eq hprevious]
      split
      · exact .cons htoken hrest
      · exact ih htoken

theorem resume_corresponds {related : Correspondence} {tokens tokens' : List Token}
    (h : List.Forall₂ related.token tokens tokens') :
    List.Forall₂ related.token (resume tokens) (resume tokens') := by
  cases h with
  | nil => exact .nil
  | cons htoken hrest =>
      simp only [resume, related.isEnd_eq htoken]
      split
      · exact .cons htoken hrest
      · exact nextBeginning_corresponds hrest htoken

inductive Parser.DeclarationsAlike (related : Correspondence) :
    Except Fault (List Stmt × Cursor) → Except Fault (List Stmt × Cursor) → Prop
  | ok {values others : List Stmt} {left right : Cursor} :
      Stmt.RelatedRow related.token values others → Cursor.Corresponds related left right →
      DeclarationsAlike related (.ok (values, left)) (.ok (others, right))
  | fault (fault : Fault) : DeclarationsAlike related (.error fault) (.error fault)

theorem Parser.declarations_alike (related : Correspondence) (bound rounds : Nat)
    {done done' : List Stmt} (hdone : Stmt.RelatedRow related.token done done')
    {start start' : Cursor} (hstart : Cursor.Corresponds related start start') :
    DeclarationsAlike related (declarations bound rounds done start)
      (declarations bound rounds done' start') := by
  induction rounds generalizing done done' start start' with
  | zero => exact .fault _
  | succ rounds ih =>
      have hitem := declaration_inStep (statement_inStep related bound) bound hstart
      obtain ⟨hrest, hdiagnostics, hfailed⟩ := hstart
      obtain ⟨tokens, diagnostics, failed⟩ := start
      obtain ⟨tokens', diagnostics', failed'⟩ := start'
      cases hrest with
      | nil => exact .fault _
      | @cons token token' rest rest' htoken hrest =>
          simp only [declarations, related.isEnd_eq htoken]
          split
          · refine .ok ?_ ⟨.cons htoken hrest, hdiagnostics, hfailed⟩
            exact Stmt.relatedRow_iff.mpr (List.rel_reverse (Stmt.relatedRow_iff.mp hdone))
          · generalize declaration _ bound _ = result at hitem
            generalize declaration _ bound _ = result' at hitem
            cases hitem with
            | ok hvalue hafter => exact ih (.cons hvalue hdone) hafter
            | fault _ => exact .fault _
            | @abort token _ error _ _ hwhere hafter =>
                refine ih hdone ⟨resume_corresponds hafter.rest, ?_, rfl⟩
                exact related.report error hwhere hafter.diagnostics

/-- Two readings have yielded related programs or none, or the same fault. -/
inductive Parsed.Alike (related : Correspondence) :
    Except Fault Parsed → Except Fault Parsed → Prop
  | ok {parsed other : Parsed} :
      Option.Rel (Stmt.RelatedRow related.token) parsed.program other.program →
      related.diagnostics parsed.diagnostics other.diagnostics →
      Alike related (.ok parsed) (.ok other)
  | fault (fault : Fault) : Alike related (.error fault) (.error fault)

theorem Parsed.ofTokens_alike (related : Correspondence) {tokens tokens' : List Token}
    {diagnostics diagnostics' : Diagnostics} (htokens : List.Forall₂ related.token tokens tokens')
    (hdiagnostics : related.diagnostics diagnostics diagnostics') :
    Alike related (ofTokens tokens diagnostics) (ofTokens tokens' diagnostics') := by
  have hread := Parser.declarations_alike related (tokens.length + 1) (tokens.length + 1) .nil
    (⟨htokens, hdiagnostics, rfl⟩ :
      Cursor.Corresponds related ⟨tokens, diagnostics, false⟩ ⟨tokens', diagnostics', false⟩)
  simp only [ofTokens, ← htokens.length_eq, bind, Except.bind]
  generalize Parser.declarations _ _ [] _ = result at hread
  generalize Parser.declarations _ _ [] _ = result' at hread
  cases hread with
  | fault fault => exact .fault fault
  | ok hvalues hafter =>
      refine .ok ?_ hafter.diagnostics
      rw [hafter.failed_eq]
      split
      · exact .none
      · exact .some hvalues

end Treewalk
