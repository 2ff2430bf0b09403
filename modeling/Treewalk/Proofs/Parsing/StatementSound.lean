import Treewalk.Proofs.Grammar.Clause
import Treewalk.Proofs.Parsing.ExpressionSound

/-!
What the parser of statements reads are clauses, in which every alternative belongs to the nearest
conditional. That is so because the parser never leaves a conditional that could take the
alternative under the cursor.
-/

namespace Treewalk.Parser

open Cursor

/-- A clause has been read, and no alternative that it could take is under the cursor. -/
structure ReadsClause (place : Clause.Place) (start : Cursor) (value : Stmt) (finish : Cursor)
    (clause : Clause) : Prop where
  fits : clause.Fits place
  nearest : clause.Nearest
  tree_eq : clause.tree = value
  passes : start.Passes clause.tokens clause.remarks finish
  no_alternative : clause.endsOpen = true → ∀ token rest, finish.rest = token :: rest →
    token.kind ≠ .elseWord

/-- All that a parser can read are clauses for a place. -/
def DerivesClause (place : Clause.Place) (parser : Parser Stmt) : Prop :=
  ∀ start value finish, parser start = .ok value finish →
    ∃ clause, ReadsClause place start value finish clause

variable {nested : Parser Stmt} {start finish : Cursor}

theorem expressionStatement_derives (bound : Nat) :
    DerivesClause .statement (expressionStatement bound) := by
  intro start value finish h
  obtain ⟨value, middle, hvalue, h⟩ := ok_of_bind h
  obtain ⟨phrase, hfits, rfl, hphrase⟩ := expression_derives bound _ _ _ hvalue
  obtain ⟨semicolon, after, hexpect, h⟩ := ok_of_bind h
  obtain ⟨hkind, hsemicolon⟩ := ok_of_expect hexpect (by simp)
  cases h
  refine ⟨.expression phrase semicolon, .expression hfits hkind, ?_, ?_, ?_, ?_⟩
  · simp [Clause.Nearest]
  · simp [Clause.tree]
  · simpa [Clause.tokens, Clause.remarks] using hphrase.trans hsemicolon
  · simp [Clause.endsOpen]

theorem printStatement_derives (bound : Nat) {keyword : Token}
    (hkeyword : keyword.kind = .printWord) {value : Stmt} {middle : Cursor}
    (hstart : start.Passes [keyword] [] middle)
    (h : printStatement bound middle = .ok value finish) :
    ∃ clause, ReadsClause .statement start value finish clause := by
  obtain ⟨value, inside, hvalue, h⟩ := ok_of_bind h
  obtain ⟨phrase, hfits, rfl, hphrase⟩ := expression_derives bound _ _ _ hvalue
  obtain ⟨semicolon, after, hexpect, h⟩ := ok_of_bind h
  obtain ⟨hkind, hsemicolon⟩ := ok_of_expect hexpect (by simp)
  cases h
  refine ⟨.print keyword phrase semicolon, .print hkeyword hfits hkind, ?_, ?_, ?_, ?_⟩
  · simp [Clause.Nearest]
  · simp [Clause.tree]
  · simpa [Clause.tokens, Clause.remarks] using (hstart.trans hphrase).trans hsemicolon
  · simp [Clause.endsOpen]

theorem initialValue_derives (bound : Nat) {value : Option Expr}
    (h : initialValue bound start = .ok value finish) :
    ∃ initial : Option (Token × Phrase), (∀ equals phrase, initial = some (equals, phrase) →
        equals.kind = .equal ∧ phrase.Fits .assignment) ∧
      value = initial.map (fun initial => initial.2.tree) ∧
      start.Passes (initial.elim [] fun initial => initial.1 :: initial.2.tokens)
        (initial.elim [] fun initial => initial.2.remarks) finish := by
  obtain ⟨result, middle, haccept, h⟩ := ok_of_bind h
  rcases ok_of_accept haccept (by simp) with ⟨equals, rfl, hkind, hequals⟩ | ⟨rfl, rfl, -⟩
  · obtain ⟨value, hvalue, rfl⟩ := ok_of_map h
    obtain ⟨phrase, hfits, rfl, hphrase⟩ := expression_derives bound _ _ _ hvalue
    refine ⟨some (equals, phrase), ?_, rfl, hequals.trans hphrase⟩
    rintro _ _ ⟨⟩
    exact ⟨by simpa using hkind, hfits⟩
  · cases h
    exact ⟨none, by simp, rfl, .refl _⟩

theorem declareVariable_derives (bound : Nat) {keyword : Token}
    (hkeyword : keyword.kind = .varWord) {value : Stmt}
    (h : declareVariable bound start = .ok value finish) :
    ∃ declaration : Declaration, declaration.keyword = keyword ∧ declaration.Fits ∧
      declaration.tree = value ∧ start.Passes declaration.body declaration.remarks finish := by
  obtain ⟨name, named, hname, h⟩ := ok_of_bind h
  obtain ⟨result, middle, haccept, hname⟩ := ok_of_bind hname
  rcases ok_of_accept haccept (by simp) with ⟨name', rfl, hkind, hnamed⟩ | ⟨rfl, -⟩
  · cases hname
    obtain ⟨value, given, hvalue, h⟩ := ok_of_bind h
    obtain ⟨initial, hinitial, rfl, hgiven⟩ := initialValue_derives bound hvalue
    obtain ⟨semicolon, after, hexpect, h⟩ := ok_of_bind h
    obtain ⟨hsemicolon, hlast⟩ := ok_of_expect hexpect (by simp)
    cases h
    refine ⟨⟨keyword, name, initial, semicolon⟩, rfl, ⟨hkeyword, ?_, hinitial, hsemicolon⟩,
      rfl, ?_⟩
    · simpa using hkind
    · have hpasses := (hnamed.trans hgiven).trans hlast
      cases initial with
      | none => simpa [Declaration.body, Declaration.remarks] using hpasses
      | some initial => simpa [Declaration.body, Declaration.remarks] using hpasses
  · exact absurd hname fail_ne_ok

theorem declaration_derives (hnested : DerivesClause .statement nested) (bound : Nat) :
    DerivesClause .declaration (declaration nested bound) := by
  intro start value finish h
  obtain ⟨result, middle, haccept, h⟩ := ok_of_bind h
  rcases ok_of_accept haccept (by simp) with ⟨keyword, rfl, hkind, hkeyword⟩ | ⟨rfl, rfl, -⟩
  · obtain ⟨declaration, rfl, hfits, rfl, hpasses⟩ :=
      declareVariable_derives bound (by simpa using hkind) h
    refine ⟨.declare declaration, .declare hfits, ?_, ?_, ?_, ?_⟩
    · simp [Clause.Nearest]
    · simp [Clause.tree]
    · simpa [Clause.tokens, Clause.remarks, Declaration.tokens] using hkeyword.trans hpasses
    · simp [Clause.endsOpen]
  · obtain ⟨clause, hclause⟩ := hnested _ _ _ h
    exact ⟨clause, { hclause with fits := .statement hclause.fits }⟩

structure ReadsRow (start : Cursor) (values : List Stmt) (finish : Cursor)
    (row : List Clause) : Prop where
  fits : ∀ clause ∈ row, clause.Fits .declaration
  nearest : Clause.NearestRow row
  trees_eq : Clause.treeRow row = values
  passes : start.Passes (Clause.tokensRow row) (Clause.remarksRow row) finish

theorem ReadsRow.nil (cursor : Cursor) : ReadsRow cursor [] cursor [] :=
  ⟨by simp, trivial, rfl, .refl cursor⟩

theorem ReadsRow.cons {middle : Cursor} {value : Stmt} {values : List Stmt} {clause : Clause}
    {row : List Clause} (hfirst : ReadsClause .declaration start value middle clause)
    (hrest : ReadsRow middle values finish row) :
    ReadsRow start (value :: values) finish (clause :: row) := by
  refine ⟨?_, ⟨hfirst.nearest, hrest.nearest⟩, ?_, hfirst.passes.trans hrest.passes⟩
  · simpa [hfirst.fits] using hrest.fits
  · rw [Clause.treeRow, hfirst.tree_eq, hrest.trees_eq]

theorem blockBody_derives {item : Parser Stmt} (hitem : DerivesClause .declaration item)
    (bound : Nat) (done : List Stmt) {values : List Stmt}
    (h : blockBody item bound done start = .ok values finish) :
    ∃ row read, values = done.reverse ++ read ∧ ReadsRow start read finish row := by
  induction bound generalizing done start with
  | zero => exact absurd h exceeded_ne_ok
  | succ bound ih =>
      obtain ⟨token, middle, hpeek, h⟩ := ok_of_bind h
      obtain ⟨rfl, -⟩ := ok_of_peek hpeek
      split at h
      · cases h
        exact ⟨[], [], by simp, .nil _⟩
      · obtain ⟨value, after, hvalue, h⟩ := ok_of_bind h
        obtain ⟨clause, hclause⟩ := hitem _ _ _ hvalue
        obtain ⟨row, read, rfl, hrow⟩ := ih (value :: done) h
        exact ⟨clause :: row, value :: read, by simp, .cons hclause hrow⟩

theorem block_derives (hnested : DerivesClause .statement nested) (bound : Nat)
    {opening : Token} (hopening : opening.kind = .leftBrace) {value : Stmt} {middle : Cursor}
    (hstart : start.Passes [opening] [] middle)
    (h : block nested bound middle = .ok value finish) :
    ∃ clause, ReadsClause .statement start value finish clause := by
  obtain ⟨values, inside, hvalues, h⟩ := ok_of_bind h
  obtain ⟨body, read, rfl, hbody⟩ :=
    blockBody_derives (declaration_derives hnested bound) bound [] hvalues
  obtain ⟨closing, after, hexpect, h⟩ := ok_of_bind h
  obtain ⟨hkind, hclosing⟩ := ok_of_expect hexpect (by simp)
  cases h
  refine ⟨.block opening body closing, .block hopening hbody.fits hkind, ?_, ?_, ?_, ?_⟩
  · simpa [Clause.Nearest] using hbody.nearest
  · simp [Clause.tree, hbody.trees_eq]
  · simpa [Clause.tokens, Clause.remarks] using (hstart.trans hbody.passes).trans hclosing
  · simp [Clause.endsOpen]

theorem alternative_derives (hnested : DerivesClause .statement nested) {value : Option Stmt}
    (h : alternative nested start = .ok value finish) :
    (∃ elseWord clause middle tree, value = some tree ∧ elseWord.kind = .elseWord ∧
        start.rest = elseWord :: middle.rest ∧ start.Passes [elseWord] [] middle ∧
        ReadsClause .statement middle tree finish clause) ∨
      (value = none ∧ start = finish ∧ ∀ token rest, finish.rest = token :: rest →
        token.kind ≠ .elseWord) := by
  obtain ⟨result, middle, haccept, h⟩ := ok_of_bind h
  rcases ok_of_accept haccept (by simp) with
    ⟨elseWord, rfl, hkind, helse⟩ | ⟨rfl, rfl, token, rest, hrest, hkind⟩
  · left
    obtain ⟨tree, htree, rfl⟩ := ok_of_map h
    obtain ⟨clause, hclause⟩ := hnested _ _ _ htree
    exact ⟨elseWord, clause, middle, tree, rfl, by simpa using hkind, helse.rest_eq, helse,
      hclause⟩
  · right
    cases h
    refine ⟨rfl, rfl, ?_⟩
    intro other others hothers
    rw [hrest, List.cons.injEq] at hothers
    rw [← hothers.1]
    simpa using hkind

theorem heading_derives (bound : Nat) {keyword opening closing : Token} {place place' : String}
    {value : Expr} {first second third : Cursor} {kind : TokenKind}
    (hkeyword : keyword.kind = kind) (hstart : start.Passes [keyword] [] first)
    (hopening : expect .leftParen place first = .ok opening second)
    (hvalue : expression bound second = .ok value third)
    (hclosing : expect .rightParen place' third = .ok closing finish) :
    ∃ heading : Heading, heading.Fits kind ∧ heading.condition.tree = value ∧
      start.Passes heading.tokens heading.condition.remarks finish := by
  obtain ⟨hfirst, hafter⟩ := ok_of_expect hopening (by simp)
  obtain ⟨phrase, hfits, rfl, hphrase⟩ := expression_derives bound _ _ _ hvalue
  obtain ⟨hlast, hfinish⟩ := ok_of_expect hclosing (by simp)
  refine ⟨⟨keyword, opening, phrase, closing⟩, ⟨hkeyword, hfirst, hfits, hlast⟩, rfl, ?_⟩
  simpa [Heading.tokens, Heading.body] using ((hstart.trans hafter).trans hphrase).trans hfinish

theorem conditional_derives (hnested : DerivesClause .statement nested) (bound : Nat)
    {keyword : Token} (hkeyword : keyword.kind = .ifWord) {value : Stmt} {middle : Cursor}
    (hstart : start.Passes [keyword] [] middle)
    (h : conditional nested bound middle = .ok value finish) :
    ∃ clause, ReadsClause .statement start value finish clause := by
  obtain ⟨opening, first, hopening, h⟩ := ok_of_bind h
  obtain ⟨condition, second, hcondition, h⟩ := ok_of_bind h
  obtain ⟨closing, third, hclosing, h⟩ := ok_of_bind h
  obtain ⟨heading, hfits, rfl, hheading⟩ :=
    heading_derives bound hkeyword hstart hopening hcondition hclosing
  obtain ⟨consequent, fourth, hconsequent, h⟩ := ok_of_bind h
  obtain ⟨clause, hclause⟩ := hnested _ _ _ hconsequent
  obtain ⟨other, last, hother, h⟩ := ok_of_bind h
  cases h
  rcases alternative_derives hnested hother with
    ⟨elseWord, otherwise, inside, tree, rfl, hkind, hrest, helse, hotherwise⟩ |
      ⟨rfl, rfl, hno⟩
  · refine ⟨.choice heading clause elseWord otherwise,
      .choice hfits hclause.fits hkind hotherwise.fits, ⟨?_, ?_, ?_⟩, ?_, ?_, ?_⟩
    · -- an open conditional would have taken the alternative itself
      rw [← Bool.not_eq_true]
      intro hopen
      exact hclause.no_alternative hopen _ _ hrest hkind
    · exact hclause.nearest
    · exact hotherwise.nearest
    · simp [Clause.tree, hclause.tree_eq, hotherwise.tree_eq]
    · simpa [Clause.tokens, Clause.remarks] using
        hheading.trans (hclause.passes.trans (helse.trans hotherwise.passes))
    · simpa [Clause.endsOpen] using hotherwise.no_alternative
  · refine ⟨.conditional heading clause, .conditional hfits hclause.fits, ?_, ?_, ?_, ?_⟩
    · simpa [Clause.Nearest] using hclause.nearest
    · simp [Clause.tree, hclause.tree_eq]
    · simpa [Clause.tokens, Clause.remarks] using hheading.trans hclause.passes
    · simpa [Clause.endsOpen] using hno

theorem whileLoop_derives (hnested : DerivesClause .statement nested) (bound : Nat)
    {keyword : Token} (hkeyword : keyword.kind = .whileWord) {value : Stmt} {middle : Cursor}
    (hstart : start.Passes [keyword] [] middle)
    (h : whileLoop nested bound middle = .ok value finish) :
    ∃ clause, ReadsClause .statement start value finish clause := by
  obtain ⟨opening, first, hopening, h⟩ := ok_of_bind h
  obtain ⟨condition, second, hcondition, h⟩ := ok_of_bind h
  obtain ⟨closing, third, hclosing, h⟩ := ok_of_bind h
  obtain ⟨heading, hfits, rfl, hheading⟩ :=
    heading_derives bound hkeyword hstart hopening hcondition hclosing
  obtain ⟨body, last, hbody, h⟩ := ok_of_bind h
  obtain ⟨clause, hclause⟩ := hnested _ _ _ hbody
  cases h
  refine ⟨.whileLoop heading clause, .whileLoop hfits hclause.fits, ?_, ?_, ?_, ?_⟩
  · simpa [Clause.Nearest] using hclause.nearest
  · simp [Clause.tree, hclause.tree_eq]
  · simpa [Clause.tokens, Clause.remarks] using hheading.trans hclause.passes
  · simpa [Clause.endsOpen] using hclause.no_alternative

theorem initialClause_derives (bound : Nat) {value : Option Stmt}
    (h : initialClause bound start = .ok value finish) :
    ∃ initial : Initial, initial.Fits ∧ initial.tree = value ∧
      start.Passes initial.tokens initial.remarks finish := by
  obtain ⟨result, middle, haccept, h⟩ := ok_of_bind h
  rcases ok_of_accept haccept (by simp) with ⟨semicolon, rfl, hkind, hpasses⟩ | ⟨rfl, rfl, -⟩
  · cases h
    exact ⟨.none semicolon, .none (by simpa using hkind), rfl, hpasses⟩
  · obtain ⟨result, after, haccept, h⟩ := ok_of_bind h
    rcases ok_of_accept haccept (by simp) with ⟨keyword, rfl, hkind, hkeyword⟩ | ⟨rfl, rfl, -⟩
    · obtain ⟨tree, htree, rfl⟩ := ok_of_map h
      obtain ⟨declaration, rfl, hfits, rfl, hpasses⟩ :=
        declareVariable_derives bound (by simpa using hkind) htree
      exact ⟨.declaration declaration, .declaration hfits, rfl, hkeyword.trans hpasses⟩
    · obtain ⟨tree, htree, rfl⟩ := ok_of_map h
      obtain ⟨value, inside, hvalue, htree⟩ := ok_of_bind htree
      obtain ⟨phrase, hfits, rfl, hphrase⟩ := expression_derives bound _ _ _ hvalue
      obtain ⟨semicolon, last, hexpect, htree⟩ := ok_of_bind htree
      obtain ⟨hkind, hsemicolon⟩ := ok_of_expect hexpect (by simp)
      cases htree
      refine ⟨.expression phrase semicolon, .expression hfits hkind, rfl, ?_⟩
      simpa [Initial.tokens, Initial.remarks] using hphrase.trans hsemicolon

theorem optionalExpression_derives (bound : Nat) {closing : TokenKind} {value : Option Expr}
    (h : optionalExpression bound closing start = .ok value finish) :
    ∃ phrase : Option Phrase, (∀ given, phrase = some given → given.Fits .assignment) ∧
      phrase.map Phrase.tree = value ∧
      start.Passes (phrase.elim [] Phrase.tokens) (phrase.elim [] Phrase.remarks) finish := by
  obtain ⟨found, middle, hcheck, h⟩ := ok_of_bind h
  obtain ⟨rfl, -⟩ := ok_of_check hcheck
  split at h
  · cases h
    exact ⟨none, by simp, rfl, .refl _⟩
  · obtain ⟨value, hvalue, rfl⟩ := ok_of_map h
    obtain ⟨phrase, hfits, rfl, hphrase⟩ := expression_derives bound _ _ _ hvalue
    exact ⟨some phrase, by simpa using hfits, rfl, hphrase⟩

theorem forLoop_derives (hnested : DerivesClause .statement nested) (bound : Nat)
    {keyword : Token} (hkeyword : keyword.kind = .forWord) {value : Stmt} {middle : Cursor}
    (hstart : start.Passes [keyword] [] middle)
    (h : forLoop nested bound middle = .ok value finish) :
    ∃ clause, ReadsClause .statement start value finish clause := by
  obtain ⟨opening, first, hexpect, h⟩ := ok_of_bind h
  obtain ⟨hopening, hfirst⟩ := ok_of_expect hexpect (by simp)
  obtain ⟨initial, second, hinitial, h⟩ := ok_of_bind h
  obtain ⟨initial, hinitialFits, rfl, hsecond⟩ := initialClause_derives bound hinitial
  obtain ⟨condition, third, hcondition, h⟩ := ok_of_bind h
  obtain ⟨condition, hconditionFits, rfl, hthird⟩ := optionalExpression_derives bound hcondition
  obtain ⟨semicolon, fourth, hexpect, h⟩ := ok_of_bind h
  obtain ⟨hsemicolon, hfourth⟩ := ok_of_expect hexpect (by simp)
  obtain ⟨increment, fifth, hincrement, h⟩ := ok_of_bind h
  obtain ⟨increment, hincrementFits, rfl, hfifth⟩ := optionalExpression_derives bound hincrement
  obtain ⟨closing, sixth, hexpect, h⟩ := ok_of_bind h
  obtain ⟨hclosing, hsixth⟩ := ok_of_expect hexpect (by simp)
  obtain ⟨body, last, hbody, h⟩ := ok_of_bind h
  obtain ⟨clause, hclause⟩ := hnested _ _ _ hbody
  cases h
  let counting : Counting := ⟨keyword, opening, initial, condition, semicolon, increment, closing⟩
  have hfits : counting.Fits :=
    ⟨hkeyword, hopening, hinitialFits, hconditionFits, hsemicolon, hincrementFits, hclosing⟩
  have hcounting : start.Passes counting.tokens counting.remarks sixth := by
    have hpasses := ((((hstart.trans hfirst).trans hsecond).trans hthird).trans
      hfourth).trans (hfifth.trans hsixth)
    simpa [Counting.tokens, Counting.body, Counting.remarks, counting] using hpasses
  refine ⟨.forLoop counting clause, .forLoop hfits hclause.fits, ?_, ?_, ?_, ?_⟩
  · simpa [Clause.Nearest] using hclause.nearest
  · rw [Clause.tree, counting.tree_eq, hclause.tree_eq]
  · simpa [Clause.tokens, Clause.remarks] using hcounting.trans hclause.passes
  · simpa [Clause.endsOpen] using hclause.no_alternative

theorem statementOver_derives (hnested : DerivesClause .statement nested) (bound : Nat) :
    DerivesClause .statement (statementOver nested bound) := by
  intro start value finish h
  obtain ⟨token, middle, hpeek, h⟩ := ok_of_bind h
  obtain ⟨rfl, rest, hrest⟩ := ok_of_peek hpeek
  generalize hkind : token.kind = kind at h
  split at h
  case h_6 => exact expressionStatement_derives bound _ _ _ h
  all_goals
    obtain ⟨hadvance, hpasses⟩ := passes_advance hrest (by simp [hkind])
    rw [bind_eq_of_ok hadvance] at h
  · exact printStatement_derives bound hkind hpasses h
  · exact block_derives hnested bound hkind hpasses h
  · exact conditional_derives hnested bound hkind hpasses h
  · exact whileLoop_derives hnested bound hkind hpasses h
  · exact forLoop_derives hnested bound hkind hpasses h

theorem statement_derives (bound : Nat) : DerivesClause .statement (statement bound) := by
  induction bound with
  | zero => exact fun _ _ _ h => absurd h exceeded_ne_ok
  | succ bound ih => exact statementOver_derives ih (bound + 1)

end Treewalk.Parser
