import Treewalk.Proofs.Grammar.Clause
import Treewalk.Proofs.Parsing.ExpressionComplete

/-!
The parser of statements reads every clause of the grammar in which alternatives belong to the
nearest conditional, whatever follows it, unless what follows is an alternative that the clause
could take.
-/

namespace Treewalk

namespace Clause

def beginnings : List TokenKind :=
  .printWord :: .leftBrace :: .ifWord :: .whileWord :: .forWord :: Phrase.beginnings

theorem Fits.exists_first {place : Place} {clause : Clause} (h : clause.Fits place) :
    ∃ token rest, clause.tokens = token :: rest ∧
      (token.kind ∈ beginnings ∨ place = .declaration ∧ token.kind = .varWord) := by
  induction h with
  | @expression value semicolon hvalue _ =>
      obtain ⟨rest, hrest⟩ := value.tokens_eq_first
      refine ⟨value.first, rest ++ [semicolon], by simp [tokens, hrest], .inl ?_⟩
      simp [beginnings, hvalue.first_kind]
  | print hkeyword _ _ => exact ⟨_, _, by rw [tokens], .inl (by simp [beginnings, hkeyword])⟩
  | block hopening _ _ _ => exact ⟨_, _, by rw [tokens], .inl (by simp [beginnings, hopening])⟩
  | conditional hheading _ _ =>
      exact ⟨_, _, by rw [tokens, Heading.tokens, List.cons_append],
        .inl (by simp [beginnings, hheading.keyword])⟩
  | choice hheading _ _ _ _ _ =>
      exact ⟨_, _, by rw [tokens, Heading.tokens, List.cons_append],
        .inl (by simp [beginnings, hheading.keyword])⟩
  | whileLoop hheading _ _ =>
      exact ⟨_, _, by rw [tokens, Heading.tokens, List.cons_append],
        .inl (by simp [beginnings, hheading.keyword])⟩
  | forLoop hcounting _ _ =>
      exact ⟨_, _, by rw [tokens, Counting.tokens, List.cons_append],
        .inl (by simp [beginnings, hcounting.keyword])⟩
  | declare hdeclaration =>
      exact ⟨_, _, by rw [tokens, Declaration.tokens], .inr ⟨rfl, hdeclaration.keyword⟩⟩
  | statement _ ih =>
      obtain ⟨token, rest, htokens, hkind⟩ := ih
      exact ⟨token, rest, htokens, .inl (by simpa using hkind)⟩

end Clause

namespace Parser

variable {nested : Parser Stmt} {bound : Nat} {token : Token}

theorem stops_of_semicolon (h : token.kind = .semicolon) :
    Level.assignment.Stops token.kind :=
  Level.stops_of_closing (.inl h) .assignment

theorem stops_of_rightParen (h : token.kind = .rightParen) :
    Level.assignment.Stops token.kind :=
  Level.stops_of_closing (.inr (.inl h)) .assignment

/-- What a statement that begins with a keyword goes on with. -/
def afterKeyword (nested : Parser Stmt) (bound : Nat) : TokenKind → Option (Parser Stmt)
  | .printWord => some (printStatement bound)
  | .leftBrace => some (block nested bound)
  | .ifWord => some (conditional nested bound)
  | .whileWord => some (whileLoop nested bound)
  | .forWord => some (forLoop nested bound)
  | _ => none

theorem statementOver_keyword {parser : Parser Stmt}
    (h : afterKeyword nested bound token.kind = some parser) (cursor : Cursor)
    (rest : List Token) :
    statementOver nested bound (cursor.before (token :: rest)) = parser (cursor.before rest) := by
  have hkind : token.kind ≠ .endOfText := by
    intro hkind
    simp [hkind, afterKeyword] at h
  have hadvance := advance_before cursor rest hkind
  rw [statementOver, bind_eq_of_ok (peek_before cursor token rest)]
  generalize token.kind = kind at h
  unfold afterKeyword at h
  split at h <;> cases h <;> exact bind_eq_of_ok hadvance

theorem statementOver_expression (h : token.kind ∈ Phrase.beginnings) (cursor : Cursor)
    (rest : List Token) :
    statementOver nested bound (cursor.before (token :: rest)) =
      expressionStatement bound (cursor.before (token :: rest)) := by
  rw [statementOver, bind_eq_of_ok (peek_before cursor token rest)]
  generalize token.kind = kind at h
  simp only [Phrase.beginnings, Phrase.primaryBeginnings, List.mem_cons, List.not_mem_nil,
    or_false] at h
  rcases h with rfl | rfl | rfl | rfl | rfl | rfl | rfl | rfl | rfl <;> rfl

end Parser

namespace Phrase.Fits

open Treewalk.Parser

variable {phrase : Phrase} {bound : Nat} {next : Token}

theorem read_expression (h : phrase.Fits .assignment) (hbound : phrase.tokens.length ≤ bound)
    (cursor : Cursor) (rest : List Token) (hnext : Level.assignment.Stops next.kind) :
    Parser.expression bound (cursor.before (phrase.tokens ++ next :: rest)) =
      .ok phrase.tree ((cursor.noting phrase.remarks).before (next :: rest)) :=
  h.read.1.expression hbound cursor rest hnext

theorem read_expressionStatement (h : phrase.Fits .assignment)
    (hbound : phrase.tokens.length ≤ bound) (cursor : Cursor) {semicolon : Token}
    (rest : List Token) (hsemicolon : semicolon.kind = .semicolon) :
    expressionStatement bound (cursor.before (phrase.tokens ++ semicolon :: rest)) =
      .ok (.expression phrase.tree) ((cursor.noting phrase.remarks).before rest) := by
  have hread := h.read_expression hbound cursor rest (stops_of_semicolon hsemicolon)
  have hexpect := expect_before (cursor.noting phrase.remarks) "after expression" rest
    hsemicolon (by simp)
  rw [expressionStatement, bind_eq_of_ok hread, bind_eq_of_ok hexpect]
  rfl

theorem read_printStatement (h : phrase.Fits .assignment)
    (hbound : phrase.tokens.length ≤ bound) (cursor : Cursor) {semicolon : Token}
    (rest : List Token) (hsemicolon : semicolon.kind = .semicolon) :
    printStatement bound (cursor.before (phrase.tokens ++ semicolon :: rest)) =
      .ok (.print phrase.tree) ((cursor.noting phrase.remarks).before rest) := by
  have hread := h.read_expression hbound cursor rest (stops_of_semicolon hsemicolon)
  have hexpect := expect_before (cursor.noting phrase.remarks) "after value" rest hsemicolon
    (by simp)
  rw [printStatement, bind_eq_of_ok hread, bind_eq_of_ok hexpect]
  rfl

end Phrase.Fits

namespace Declaration.Fits

open Treewalk.Parser

theorem read {declaration : Declaration} (h : declaration.Fits) {bound : Nat}
    (hbound : declaration.tokens.length ≤ bound) (cursor : Cursor) (rest : List Token) :
    declareVariable bound (cursor.before (declaration.body ++ rest)) =
      .ok declaration.tree ((cursor.noting declaration.remarks).before rest) := by
  obtain ⟨keyword, name, initial, semicolon⟩ := declaration
  obtain ⟨-, hname, hinitial, hsemicolon⟩ := h
  simp only at hname hsemicolon
  have hnamed (after : List Token) :
      declaredName (cursor.before (name :: after)) = .ok name (cursor.before after) :=
    bind_eq_of_ok (accept_of_mem cursor after (by simp [hname]) (by simp))
  cases initial with
  | none =>
      have hvalue : initialValue bound (cursor.before (semicolon :: rest)) =
          .ok none (cursor.before (semicolon :: rest)) :=
        bind_eq_of_ok (accept_of_not_mem cursor rest (by simp [hsemicolon]))
      have hexpect := expect_before cursor "after variable declaration" rest hsemicolon (by simp)
      simp only [Declaration.body, List.cons_append, List.nil_append]
      rw [declareVariable, bind_eq_of_ok (hnamed _), bind_eq_of_ok hvalue, bind_eq_of_ok hexpect]
      rfl
  | some initial =>
      obtain ⟨equals, value⟩ := initial
      obtain ⟨hequals, hfits⟩ := hinitial equals value rfl
      simp only [Declaration.tokens, Declaration.body, List.length_cons, List.length_append]
        at hbound
      have hread := hfits.read_expression (by omega : _ ≤ bound) cursor rest
        (stops_of_semicolon hsemicolon)
      have hvalue : initialValue bound
          (cursor.before (equals :: (value.tokens ++ semicolon :: rest))) =
            .ok (some value.tree) ((cursor.noting value.remarks).before (semicolon :: rest)) :=
        (bind_eq_of_ok (accept_of_mem cursor _ (by simp [hequals]) (by simp))).trans
          (map_eq_of_ok _ hread)
      have hexpect := expect_before (cursor.noting value.remarks) "after variable declaration"
        rest hsemicolon (by simp)
      simp only [Declaration.body, List.cons_append, List.append_assoc, List.nil_append]
      rw [declareVariable, bind_eq_of_ok (hnamed _), bind_eq_of_ok hvalue, bind_eq_of_ok hexpect]
      rfl

end Declaration.Fits

namespace Initial.Fits

open Treewalk.Parser

theorem read {initial : Initial} (h : initial.Fits) {bound : Nat}
    (hbound : initial.tokens.length ≤ bound) (cursor : Cursor) (rest : List Token) :
    initialClause bound (cursor.before (initial.tokens ++ rest)) =
      .ok initial.tree ((cursor.noting initial.remarks).before rest) := by
  cases h with
  | none hsemicolon =>
      exact bind_eq_of_ok (accept_of_mem cursor rest (by simp [hsemicolon]) (by simp))
  | @declaration declared hdeclared =>
      have hkeyword := hdeclared.keyword
      have hread := hdeclared.read hbound cursor rest
      have hfirst := accept_of_not_mem cursor (declared.body ++ rest)
        (by simp [hkeyword] : declared.keyword.kind ∉ [.semicolon])
      have hsecond := accept_of_mem cursor (declared.body ++ rest)
        (by simp [hkeyword] : declared.keyword.kind ∈ [.varWord]) (by simp)
      rw [Initial.tokens, Declaration.tokens, List.cons_append]
      exact (bind_eq_of_ok hfirst).trans ((bind_eq_of_ok hsecond).trans (map_eq_of_ok _ hread))
  | @expression value semicolon hvalue hsemicolon =>
      simp only [Initial.tokens, List.length_append, List.length_singleton] at hbound
      have hread := hvalue.read_expressionStatement (by omega : _ ≤ bound) cursor rest hsemicolon
      obtain ⟨others, hothers⟩ := value.tokens_eq_first
      have hfirst := hvalue.first_kind
      rw [Initial.tokens, List.append_assoc, List.singleton_append]
      rw [hothers, List.cons_append] at hread ⊢
      have hnotSemicolon : value.first.kind ∉ [TokenKind.semicolon] := by
        intro hmem
        rw [List.mem_singleton] at hmem
        simp [hmem, Phrase.beginnings, Phrase.primaryBeginnings] at hfirst
      have hnotVar : value.first.kind ∉ [TokenKind.varWord] := by
        intro hmem
        rw [List.mem_singleton] at hmem
        simp [hmem, Phrase.beginnings, Phrase.primaryBeginnings] at hfirst
      exact (bind_eq_of_ok (accept_of_not_mem cursor _ hnotSemicolon)).trans
        ((bind_eq_of_ok (accept_of_not_mem cursor _ hnotVar)).trans (map_eq_of_ok _ hread))

end Initial.Fits

theorem Parser.optionalExpression_before {phrase : Option Phrase}
    (hfits : ∀ given, phrase = some given → given.Fits .assignment) {bound : Nat}
    (hbound : (phrase.elim [] Phrase.tokens).length ≤ bound) (cursor : Cursor)
    {closing : TokenKind} {next : Token} (rest : List Token) (hnext : next.kind = closing)
    (hclosing : closing = .semicolon ∨ closing = .rightParen) :
    optionalExpression bound closing
        (cursor.before (phrase.elim [] Phrase.tokens ++ next :: rest)) =
      .ok (phrase.map Phrase.tree)
        ((cursor.noting (phrase.elim [] Phrase.remarks)).before (next :: rest)) := by
  cases phrase with
  | none =>
      apply (bind_eq_of_ok (check_before cursor closing next rest)).trans
      rw [if_pos (by simpa using hnext)]
      rfl
  | some phrase =>
      have hphrase := hfits phrase rfl
      have hstops : Level.assignment.Stops next.kind := by
        refine Level.stops_of_closing ?_ .assignment
        rcases hclosing with rfl | rfl <;> simp [hnext]
      have hread := hphrase.read_expression hbound cursor rest hstops
      obtain ⟨others, hothers⟩ := phrase.tokens_eq_first
      have hfirst := hphrase.first_kind
      have hkind : phrase.first.kind ≠ closing := by
        rintro rfl
        rcases hclosing with h | h <;>
          simp [h, Phrase.beginnings, Phrase.primaryBeginnings] at hfirst
      simp only [Option.elim_some]
      rw [hothers, List.cons_append] at hread ⊢
      apply (bind_eq_of_ok (check_before cursor closing _ _)).trans
      rw [if_neg (by simpa using hkind)]
      exact map_eq_of_ok _ hread

namespace Heading.Fits

open Treewalk.Parser

theorem read {kind : TokenKind} {heading : Heading} (h : heading.Fits kind) {bound : Nat}
    (hbound : heading.body.length ≤ bound) {α : Type} (opened closed : String)
    (next : Expr → Parser α) (cursor : Cursor) (rest : List Token) :
    (do
      let _ ← expect .leftParen opened
      let condition ← Parser.expression bound
      let _ ← expect .rightParen closed
      next condition : Parser α) (cursor.before (heading.body ++ rest)) =
        next heading.condition.tree ((cursor.noting heading.condition.remarks).before rest) := by
  simp only [body, List.length_cons, List.length_append] at hbound
  have hopen := expect_before cursor opened (heading.condition.tokens ++ heading.closing :: rest)
    h.opening (by simp)
  have hread := h.condition.read_expression (by omega : _ ≤ bound) cursor rest
    (stops_of_rightParen h.closing)
  have hclose := expect_before (cursor.noting heading.condition.remarks) closed rest h.closing
    (by simp)
  rw [body, List.cons_append, List.append_assoc, List.singleton_append, bind_eq_of_ok hopen,
    bind_eq_of_ok hread, bind_eq_of_ok hclose]

end Heading.Fits

namespace Counting.Fits

open Treewalk.Parser

theorem read {counting : Counting} (h : counting.Fits) {bound : Nat}
    (hbound : counting.body.length ≤ bound) {α : Type}
    (next : Option Stmt → Option Expr → Option Expr → Parser α) (cursor : Cursor)
    (rest : List Token) :
    (do
      let _ ← expect .leftParen "after 'for'"
      let initial ← initialClause bound
      let condition ← optionalExpression bound .semicolon
      let _ ← expect .semicolon "after loop condition"
      let increment ← optionalExpression bound .rightParen
      let _ ← expect .rightParen "after for clauses"
      next initial condition increment : Parser α) (cursor.before (counting.body ++ rest)) =
        next counting.initial.tree (counting.condition.map Phrase.tree)
          (counting.increment.map Phrase.tree) ((cursor.noting counting.remarks).before rest) := by
  simp only [body, List.length_append, List.length_cons] at hbound
  let afterIncrement := counting.closing :: rest
  let afterCondition :=
    counting.semicolon :: (counting.increment.elim [] Phrase.tokens ++ afterIncrement)
  let afterInitial := counting.condition.elim [] Phrase.tokens ++ afterCondition
  let first := cursor.noting counting.initial.remarks
  let second := first.noting (counting.condition.elim [] Phrase.remarks)
  let third := second.noting (counting.increment.elim [] Phrase.remarks)
  have hopening := expect_before cursor "after 'for'" (counting.initial.tokens ++ afterInitial)
    h.opening (by simp)
  have hinitial := h.initial.read (by omega : _ ≤ bound) cursor afterInitial
  have hcondition := optionalExpression_before h.condition (by omega : _ ≤ bound) first
    (counting.increment.elim [] Phrase.tokens ++ afterIncrement) h.semicolon (.inl rfl)
  have hsemicolon := expect_before second "after loop condition"
    (counting.increment.elim [] Phrase.tokens ++ afterIncrement) h.semicolon (by simp)
  have hincrement := optionalExpression_before h.increment (by omega : _ ≤ bound) second rest
    h.closing (.inr rfl)
  have hclosing := expect_before third "after for clauses" rest h.closing (by simp)
  have htokens : counting.body ++ rest =
      counting.opening :: (counting.initial.tokens ++ afterInitial) := by
    simp [body, afterInitial, afterCondition, afterIncrement]
  have hremarks : cursor.noting counting.remarks = third := by
    simp [remarks, third, second, first, Cursor.noting_append]
  rw [htokens, hremarks, bind_eq_of_ok hopening, bind_eq_of_ok hinitial,
    bind_eq_of_ok hcondition, bind_eq_of_ok hsemicolon, bind_eq_of_ok hincrement,
    bind_eq_of_ok hclosing]

end Counting.Fits

namespace Clause

open Treewalk.Parser

/-- The parser of the place reads the clause. -/
def ReadAt : Place → Clause → Prop
  | .statement, clause => ∀ (bound : Nat) (cursor : Cursor) (next : Token) (rest : List Token),
      clause.tokens.length ≤ bound → (clause.endsOpen = true → next.kind ≠ .elseWord) →
      Parser.statement bound (cursor.before (clause.tokens ++ next :: rest)) =
        .ok clause.tree ((cursor.noting clause.remarks).before (next :: rest))
  | .declaration, clause => ∀ (inner bound : Nat) (cursor : Cursor) (next : Token)
      (rest : List Token), clause.tokens.length ≤ inner → clause.tokens.length ≤ bound →
      (clause.endsOpen = true → next.kind ≠ .elseWord) →
      Parser.declaration (Parser.statement inner) bound
          (cursor.before (clause.tokens ++ next :: rest)) =
        .ok clause.tree ((cursor.noting clause.remarks).before (next :: rest))

theorem readAt_of_keyword {clause : Clause} {keyword : Token} {body : List Token}
    (htokens : clause.tokens = keyword :: body) (parser : Nat → Parser Stmt)
    (hkeyword : ∀ bound,
      afterKeyword (Parser.statement bound) (bound + 1) keyword.kind = some (parser bound))
    (hread : ∀ (bound : Nat) (cursor : Cursor) (next : Token) (rest : List Token),
      body.length ≤ bound → (clause.endsOpen = true → next.kind ≠ .elseWord) →
      parser bound (cursor.before (body ++ next :: rest)) =
        .ok clause.tree ((cursor.noting clause.remarks).before (next :: rest))) :
    clause.ReadAt .statement := by
  intro bound cursor next rest hbound hnext
  rw [htokens, List.length_cons] at hbound
  obtain ⟨bound, rfl⟩ : ∃ smaller, bound = smaller + 1 := ⟨bound - 1, by omega⟩
  rw [htokens, List.cons_append, Parser.statement, statementOver_keyword (hkeyword bound)]
  exact hread bound cursor next rest (by omega) hnext

theorem readAt_expression {value : Phrase} {semicolon : Token} (hvalue : value.Fits .assignment)
    (hsemicolon : semicolon.kind = .semicolon) :
    (expression value semicolon).ReadAt .statement := by
  intro bound cursor next rest hbound _
  simp only [tokens, List.length_append, List.length_singleton] at hbound
  obtain ⟨bound, rfl⟩ : ∃ smaller, bound = smaller + 1 := ⟨bound - 1, by omega⟩
  have hread := hvalue.read_expressionStatement (by omega : _ ≤ bound + 1) cursor (next :: rest)
    hsemicolon
  obtain ⟨others, hothers⟩ := value.tokens_eq_first
  rw [tokens, List.append_assoc, List.singleton_append, tree, remarks]
  rw [hothers, List.cons_append] at hread ⊢
  rw [Parser.statement, statementOver_expression hvalue.first_kind, hread]

theorem readAt_print {keyword semicolon : Token} {value : Phrase}
    (hkeyword : keyword.kind = .printWord) (hvalue : value.Fits .assignment)
    (hsemicolon : semicolon.kind = .semicolon) :
    (print keyword value semicolon).ReadAt .statement := by
  refine readAt_of_keyword (by rw [tokens]) (fun bound => printStatement (bound + 1))
    (by simp [hkeyword, afterKeyword]) ?_
  intro bound cursor next rest hbound _
  simp only [List.length_append, List.length_singleton] at hbound
  rw [List.append_assoc, List.singleton_append, tree, remarks]
  exact hvalue.read_printStatement (by omega) cursor (next :: rest) hsemicolon

/-- No alternative stands before a clause or before the brace that closes a block. -/
theorem Fits.first_ne_elseWord {row : List Clause}
    (hfits : ∀ clause ∈ row, clause.Fits .declaration) {closing next : Token}
    {rest after : List Token} (hclosing : closing.kind ≠ .elseWord)
    (h : tokensRow row ++ closing :: after = next :: rest) : next.kind ≠ .elseWord := by
  cases row with
  | nil =>
      rw [tokensRow, List.nil_append, List.cons.injEq] at h
      rwa [← h.1]
  | cons first others =>
      obtain ⟨token, body, htokens, hkind⟩ := (hfits first (by simp)).exists_first
      rw [tokensRow, htokens, List.cons_append, List.cons_append, List.cons.injEq] at h
      rw [← h.1]
      rcases hkind with hkind | ⟨-, hkind⟩
      · intro helse
        simp [helse, beginnings, Phrase.beginnings, Phrase.primaryBeginnings] at hkind
      · simp [hkind]

theorem blockBody_before {inner bound : Nat} {row : List Clause}
    (hfits : ∀ clause ∈ row, clause.Fits .declaration)
    (hread : ∀ clause ∈ row, clause.ReadAt .declaration) {closing : Token}
    (hclosing : closing.kind = .rightBrace) (hinner : (tokensRow row).length ≤ inner)
    (hbound : (tokensRow row).length ≤ bound) (rounds : Nat)
    (hrounds : (tokensRow row).length < rounds) (done : List Stmt) (cursor : Cursor)
    (rest : List Token) :
    blockBody (Parser.declaration (Parser.statement inner) bound) rounds done
        (cursor.before (tokensRow row ++ closing :: rest)) =
      .ok (done.reverse ++ treeRow row)
        ((cursor.noting (remarksRow row)).before (closing :: rest)) := by
  induction row generalizing rounds done cursor with
  | nil =>
      obtain ⟨rounds, rfl⟩ : ∃ fewer, rounds = fewer + 1 := ⟨rounds - 1, by omega⟩
      rw [tokensRow, List.nil_append, blockBody, bind_eq_of_ok (peek_before cursor _ _),
        if_pos (by simp [hclosing])]
      simp [treeRow, remarksRow]
  | cons first others ih =>
      obtain ⟨rounds, rfl⟩ : ∃ fewer, rounds = fewer + 1 := ⟨rounds - 1, by omega⟩
      obtain ⟨token, body, htokens, hkind⟩ := (hfits first (by simp)).exists_first
      simp only [tokensRow, List.length_append] at hinner hbound hrounds
      have hgoes : ¬(token.kind == .rightBrace || token.isEnd) = true := by
        rcases hkind with hkind | ⟨-, hkind⟩
        · intro hend
          rcases Bool.or_eq_true_iff.mp hend with hend | hend <;>
            simp [Token.isEnd] at hend <;>
            simp [hend, beginnings, Phrase.beginnings, Phrase.primaryBeginnings] at hkind
        · simp [hkind, Token.isEnd]
      have hothers : ∀ clause ∈ others, clause.Fits .declaration :=
        fun clause hmem => hfits clause (List.mem_cons_of_mem _ hmem)
      obtain ⟨next, after, hafter⟩ :
          ∃ next after, tokensRow others ++ closing :: rest = next :: after :=
        List.exists_cons_of_ne_nil (by simp)
      have hnext := Fits.first_ne_elseWord hothers (by simp [hclosing]) hafter
      have hfirst := hread first (by simp) inner bound cursor next after (by omega) (by omega)
        fun _ => hnext
      have hlength : 0 < first.tokens.length := by simp [htokens]
      have hrest := ih hothers (fun clause hmem => hread clause (List.mem_cons_of_mem _ hmem))
        (by omega) (by omega) rounds (by omega) (first.tree :: done) (cursor.noting first.remarks)
      rw [tokensRow, List.append_assoc, hafter]
      rw [hafter] at hrest
      rw [htokens, List.cons_append] at hfirst ⊢
      rw [blockBody, bind_eq_of_ok (peek_before cursor _ _), if_neg hgoes, bind_eq_of_ok hfirst,
        hrest, treeRow, remarksRow, Cursor.noting_append]
      simp

theorem readAt_block {opening closing : Token} {body : List Clause}
    (hopening : opening.kind = .leftBrace) (hfits : ∀ clause ∈ body, clause.Fits .declaration)
    (hread : ∀ clause ∈ body, clause.ReadAt .declaration)
    (hclosing : closing.kind = .rightBrace) : (block opening body closing).ReadAt .statement := by
  refine readAt_of_keyword (by rw [tokens])
    (fun bound => Parser.block (Parser.statement bound) (bound + 1))
    (by simp [hopening, afterKeyword]) ?_
  intro bound cursor next rest hbound _
  simp only [List.length_append, List.length_singleton] at hbound
  have hbody := blockBody_before hfits hread hclosing (by omega : _ ≤ bound)
    (by omega : _ ≤ bound + 1) (bound + 1) (by omega) [] cursor (next :: rest)
  have hexpect := expect_before (cursor.noting (remarksRow body)) "after block" (next :: rest)
    hclosing (by simp)
  rw [List.append_assoc, List.singleton_append, tree, remarks, Parser.block,
    bind_eq_of_ok hbody, bind_eq_of_ok hexpect]
  rfl

theorem readAt_conditional {heading : Heading} {consequent : Clause}
    (hheading : heading.Fits .ifWord) (hread : consequent.ReadAt .statement) :
    (conditional heading consequent).ReadAt .statement := by
  refine readAt_of_keyword (by rw [tokens, Heading.tokens, List.cons_append])
    (fun bound => Parser.conditional (Parser.statement bound) (bound + 1))
    (by simp [hheading.keyword, afterKeyword]) ?_
  intro bound cursor next rest hbound hnext
  simp only [List.length_append] at hbound
  have hconsequent := hread bound (cursor.noting heading.condition.remarks) next rest (by omega)
    fun _ => hnext rfl
  have halternative := accept_of_not_mem
    ((cursor.noting heading.condition.remarks).noting consequent.remarks) rest
    (by simpa using hnext rfl : next.kind ∉ [.elseWord])
  rw [List.append_assoc, tree, remarks, Cursor.noting_append]
  apply (hheading.read (by omega) _ _ _ cursor (consequent.tokens ++ next :: rest)).trans
  rw [bind_eq_of_ok hconsequent]
  exact bind_eq_of_ok (bind_eq_of_ok halternative)

theorem readAt_choice {heading : Heading} {consequent otherwise : Clause} {elseWord : Token}
    (hheading : heading.Fits .ifWord) (hread : consequent.ReadAt .statement)
    (hclosed : consequent.endsOpen = false) (helse : elseWord.kind = .elseWord)
    (hother : otherwise.ReadAt .statement) :
    (choice heading consequent elseWord otherwise).ReadAt .statement := by
  refine readAt_of_keyword (by rw [tokens, Heading.tokens, List.cons_append])
    (fun bound => Parser.conditional (Parser.statement bound) (bound + 1))
    (by simp [hheading.keyword, afterKeyword]) ?_
  intro bound cursor next rest hbound hnext
  simp only [List.length_append, List.length_cons] at hbound
  have hconsequent := hread bound (cursor.noting heading.condition.remarks) elseWord
    (otherwise.tokens ++ next :: rest) (by omega) (by simp [hclosed])
  have hkeyword := accept_of_mem
    ((cursor.noting heading.condition.remarks).noting consequent.remarks)
    (otherwise.tokens ++ next :: rest) (by simp [helse] : elseWord.kind ∈ [.elseWord]) (by simp)
  have hotherwise := hother bound
    ((cursor.noting heading.condition.remarks).noting consequent.remarks) next rest (by omega)
    hnext
  rw [List.append_assoc, List.append_assoc, List.cons_append, tree, remarks,
    Cursor.noting_append, Cursor.noting_append]
  refine (hheading.read (by omega) _ _ _ cursor
    (consequent.tokens ++ elseWord :: (otherwise.tokens ++ next :: rest))).trans ?_
  rw [bind_eq_of_ok hconsequent]
  exact bind_eq_of_ok ((bind_eq_of_ok hkeyword).trans (map_eq_of_ok some hotherwise))

theorem readAt_whileLoop {heading : Heading} {body : Clause}
    (hheading : heading.Fits .whileWord) (hread : body.ReadAt .statement) :
    (whileLoop heading body).ReadAt .statement := by
  refine readAt_of_keyword (by rw [tokens, Heading.tokens, List.cons_append])
    (fun bound => Parser.whileLoop (Parser.statement bound) (bound + 1))
    (by simp [hheading.keyword, afterKeyword]) ?_
  intro bound cursor next rest hbound hnext
  simp only [List.length_append] at hbound
  have hbody := hread bound (cursor.noting heading.condition.remarks) next rest (by omega) hnext
  rw [List.append_assoc, tree, remarks, Cursor.noting_append]
  apply (hheading.read (by omega) _ _ _ cursor (body.tokens ++ next :: rest)).trans
  exact bind_eq_of_ok hbody

theorem readAt_forLoop {counting : Counting} {body : Clause} (hcounting : counting.Fits)
    (hread : body.ReadAt .statement) : (forLoop counting body).ReadAt .statement := by
  refine readAt_of_keyword (by rw [tokens, Counting.tokens, List.cons_append])
    (fun bound => Parser.forLoop (Parser.statement bound) (bound + 1))
    (by simp [hcounting.keyword, afterKeyword]) ?_
  intro bound cursor next rest hbound hnext
  simp only [List.length_append] at hbound
  have hbody := hread bound (cursor.noting counting.remarks) next rest (by omega) hnext
  rw [List.append_assoc, tree, remarks, Cursor.noting_append, counting.tree_eq]
  apply (hcounting.read (by omega) _ cursor (body.tokens ++ next :: rest)).trans
  exact bind_eq_of_ok hbody

theorem readAt_declare {declaration : Declaration} (h : declaration.Fits) :
    (declare declaration).ReadAt .declaration := by
  intro inner bound cursor next rest _ hbound _
  have hkeyword := accept_of_mem cursor (declaration.body ++ next :: rest)
    (by simp [h.keyword] : declaration.keyword.kind ∈ [.varWord]) (by simp)
  rw [tokens] at hbound
  have hread := h.read hbound cursor (next :: rest)
  rw [tokens, Declaration.tokens, List.cons_append, tree, remarks]
  exact (bind_eq_of_ok hkeyword).trans hread

theorem readAt_declaration {clause : Clause} (hfits : clause.Fits .statement)
    (hread : clause.ReadAt .statement) : clause.ReadAt .declaration := by
  intro inner bound cursor next rest hinner _ hnext
  obtain ⟨token, body, htokens, hkind⟩ := hfits.exists_first
  have hnotVar : token.kind ∉ [TokenKind.varWord] := by
    intro hmem
    rw [List.mem_singleton] at hmem
    simp [hmem, beginnings, Phrase.beginnings, Phrase.primaryBeginnings] at hkind
  have haccept := accept_of_not_mem cursor (body ++ next :: rest) hnotVar
  have hstatement := hread inner cursor next rest hinner hnext
  rw [htokens, List.cons_append] at hstatement ⊢
  exact (bind_eq_of_ok haccept).trans hstatement

/-- Every clause whose alternatives belong to the nearest conditionals is read. -/
theorem Fits.read {place : Place} {clause : Clause} (h : clause.Fits place)
    (hnearest : clause.Nearest) : clause.ReadAt place := by
  induction h with
  | expression hvalue hsemicolon => exact readAt_expression hvalue hsemicolon
  | print hkeyword hvalue hsemicolon => exact readAt_print hkeyword hvalue hsemicolon
  | block hopening hfits hclosing ih =>
      rw [Nearest, nearestRow_iff] at hnearest
      exact readAt_block hopening hfits
        (fun clause hmem => ih clause hmem (hnearest clause hmem)) hclosing
  | conditional hheading _ ih => exact readAt_conditional hheading (ih hnearest)
  | choice hheading _ helse _ ihConsequent ihAlternative =>
      obtain ⟨hclosed, hconsequent, halternative⟩ := hnearest
      exact readAt_choice hheading (ihConsequent hconsequent) hclosed helse
        (ihAlternative halternative)
  | whileLoop hheading _ ih => exact readAt_whileLoop hheading (ih hnearest)
  | forLoop hcounting _ ih => exact readAt_forLoop hcounting (ih hnearest)
  | declare hdeclaration => exact readAt_declare hdeclaration
  | statement hfits ih => exact readAt_declaration hfits (ih hnearest)

end Clause

end Treewalk
