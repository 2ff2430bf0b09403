import Treewalk.Proofs.Tree.Legible

/-!
Listings whose tokens are spelled as those of a text have legible trees.
-/

namespace Treewalk

theorem Token.Spelled.isFixed {token : Token} (h : token.Spelled)
    (hkind : token.kind ∉ Token.lexical) : token.IsFixed :=
  (Token.spelled_iff_isFixed hkind).mp h

theorem Token.Spelled.isName {token : Token} (h : token.Spelled)
    (hkind : token.kind = .identifier) : token.IsName := by
  simpa [Spelled, hkind] using h

theorem TokenKind.not_lexical :
    ∀ kind ∈ signs ++ connectives ++ operators ++ [.rightParen], kind ∉ Token.lexical := by
  decide

theorem Constant.WrittenAs.legible {value : Constant} {token : Token} (h : value.WrittenAs token)
    (hspelled : token.Spelled) : value.Legible := by
  cases h with
  | nil _ => exact .nil
  | isFalse _ | isTrue _ => exact .boolean _
  | number hkind hliteral =>
      rcases hkind with hkind | hkind
      · rw [Token.Spelled, hkind] at hspelled
        obtain ⟨numeral, hnumeral⟩ := hspelled
        obtain rfl := Literal.number.inj (Option.some.inj (hliteral.symm.trans hnumeral))
        exact .number (Number.isNegative_number numeral)
      · simp [Token.Spelled, hkind, hliteral] at hspelled
  | string hkind hliteral =>
      rcases hkind with hkind | hkind
      · simp [Token.Spelled, hkind, hliteral] at hspelled
      · exact .string (by simpa [Token.Spelled, hkind, hliteral] using hspelled)

namespace Phrase

theorem Fits.legible {level : Level} {phrase : Phrase} (h : phrase.Fits level)
    (htokens : ∀ token ∈ phrase.tokens, token.Spelled) : phrase.tree.Legible := by
  induction h with
  | constant hwritten => exact .constant (hwritten.legible (htokens _ (by simp [tokens])))
  | var hname => exact .var ((htokens _ (by simp [tokens])).isName hname)
  | group _ _ _ ih =>
      rw [tokens, List.forall_mem_cons, List.forall_mem_append] at htokens
      exact .group (ih htokens.2.1)
  | @call callee opening closing arguments commas _ _ _ _ _ hclosing ihCallee ihArguments =>
      rw [tokens, List.forall_mem_append, List.forall_mem_cons, List.forall_mem_append,
        List.forall_mem_singleton] at htokens
      obtain ⟨hcallee, -, hrow, hlast⟩ := htokens
      refine .call (ihCallee hcallee) hclosing
        (hlast.isFixed (TokenKind.not_lexical _ (by simp [hclosing]))) ?_
      rw [treeRow_eq_map, List.forall_mem_map]
      refine fun argument hmem => ihArguments argument hmem fun token htoken => hrow token ?_
      rw [tokensRow_eq_map]
      exact mem_separated_of_mem (List.mem_map_of_mem hmem) htoken _
  | @unary operator _ hoperator _ ih =>
      rw [tokens, List.forall_mem_cons] at htokens
      have hsign : operator.kind ∈ TokenKind.signs := by simpa [TokenKind.signs] using hoperator
      exact .unary hsign (htokens.1.isFixed (TokenKind.not_lexical _ (by simp [hsign])))
        (ih htokens.2)
  | binary hlevel _ hoperator _ ihLeft ihRight =>
      rw [tokens, List.forall_mem_append, List.forall_mem_cons] at htokens
      obtain ⟨hleft, hmiddle, hright⟩ := htokens
      rw [tree]
      have hkind := Level.mem_operators hlevel _ hoperator
      split at hkind
      · next hconnective =>
          rw [if_pos hconnective]
          exact .logical (ihLeft hleft) hkind
            (hmiddle.isFixed (TokenKind.not_lexical _ (by simp [hkind]))) (ihRight hright)
      · next hother =>
          rw [if_neg hother]
          exact .binary (ihLeft hleft) hkind
            (hmiddle.isFixed (TokenKind.not_lexical _ (by simp [hkind]))) (ihRight hright)
  | @assign target _ _ _ _ _ ihTarget ihValue =>
      rw [tokens, List.forall_mem_append, List.forall_mem_cons] at htokens
      cases target with
      | var name =>
          have htarget : (Expr.var name).Legible := ihTarget htokens.1
          cases htarget with
          | var hname => exact .assign hname (ihValue htokens.2.2)
      | _ => exact ihTarget htokens.1
  | tighter _ ih => exact ih htokens

end Phrase

theorem Declaration.Fits.legible {declaration : Declaration} (h : declaration.Fits)
    (htokens : ∀ token ∈ declaration.tokens, token.Spelled) : declaration.tree.Legible := by
  obtain ⟨keyword, name, initial, semicolon⟩ := declaration
  cases initial with
  | none => exact .declare ((htokens name (by simp [tokens, body])).isName h.name)
  | some initial =>
      simp only [tokens, body, List.forall_mem_cons, List.forall_mem_append] at htokens
      exact .declareAs (htokens.2.1.isName h.name) ((h.initial _ _ rfl).2.legible htokens.2.2.2.1)

theorem Initial.Fits.legible {initial : Initial} (h : initial.Fits)
    (htokens : ∀ token ∈ initial.tokens, token.Spelled) :
    ∀ statement, initial.tree = some statement → statement.Legible := by
  intro statement htree
  cases h with
  | none _ => contradiction
  | declaration hdeclaration =>
      cases htree
      exact hdeclaration.legible htokens
  | expression hvalue _ =>
      cases htree
      rw [tokens, List.forall_mem_append] at htokens
      exact .expression (hvalue.legible htokens.1)

theorem Stmt.Legible.pair {first second : Stmt} (hfirst : first.Legible)
    (hsecond : second.Legible) : Stmt.Legible (.block [first, second]) := by
  apply Stmt.Legible.block
  simpa using And.intro hfirst hsecond

theorem Stmt.Legible.counting {initial : Option Stmt} {condition increment : Option Expr}
    {body : Stmt} (hinitial : ∀ statement, initial = some statement → statement.Legible)
    (hcondition : ∀ value, condition = some value → value.Legible)
    (hincrement : ∀ value, increment = some value → value.Legible) (hbody : body.Legible) :
    (Stmt.counting initial condition increment body).Legible := by
  have htest : (condition.getD (.constant (.boolean true))).Legible := by
    cases condition with
    | none => exact .constant (.boolean true)
    | some value => exact hcondition value rfl
  have hloop : (Stmt.counting none condition increment body).Legible := by
    cases increment with
    | none => exact .loop htest hbody
    | some value => exact .loop htest (hbody.pair (.expression (hincrement value rfl)))
  cases initial with
  | none => exact hloop
  | some first => exact (hinitial first rfl).pair hloop

theorem Counting.Fits.legible {counting : Counting} (h : counting.Fits) {body : Stmt}
    (htokens : ∀ token ∈ counting.tokens, token.Spelled) (hbody : body.Legible) :
    (counting.tree body).Legible := by
  simp only [tokens, Counting.body, List.forall_mem_cons, List.forall_mem_append] at htokens
  obtain ⟨-, -, hinitial, hcondition, -, hincrement, -⟩ := htokens
  have hoptional (phrase : Option Phrase)
      (hfits : ∀ given, phrase = some given → given.Fits .assignment)
      (hspelled : ∀ token ∈ phrase.elim [] Phrase.tokens, token.Spelled) :
      ∀ value, phrase.map Phrase.tree = some value → value.Legible := by
    intro value hvalue
    obtain ⟨given, rfl, rfl⟩ := Option.map_eq_some_iff.mp hvalue
    exact (hfits given rfl).legible hspelled
  rw [counting.tree_eq]
  exact .counting (h.initial.legible hinitial) (hoptional _ h.condition hcondition)
    (hoptional _ h.increment hincrement) hbody

theorem Heading.Fits.legible {kind : TokenKind} {heading : Heading} (h : heading.Fits kind)
    (htokens : ∀ token ∈ heading.tokens, token.Spelled) : heading.condition.tree.Legible := by
  simp only [tokens, body, List.forall_mem_cons, List.forall_mem_append] at htokens
  exact h.condition.legible htokens.2.2.1

namespace Clause

theorem Fits.legible {place : Place} {clause : Clause} (h : clause.Fits place)
    (htokens : ∀ token ∈ clause.tokens, token.Spelled) : clause.tree.Legible := by
  induction h with
  | expression hvalue _ =>
      rw [tokens, List.forall_mem_append] at htokens
      exact .expression (hvalue.legible htokens.1)
  | print _ hvalue _ =>
      rw [tokens, List.forall_mem_cons, List.forall_mem_append] at htokens
      exact .print (hvalue.legible htokens.2.1)
  | block _ _ _ ih =>
      rw [tokens, List.forall_mem_cons, List.forall_mem_append, forall_mem_tokensRow] at htokens
      refine .block ?_
      rw [treeRow_eq_map, List.forall_mem_map]
      exact fun clause hmem => ih clause hmem (htokens.2.1 clause hmem)
  | conditional hheading _ ih =>
      rw [tokens, List.forall_mem_append] at htokens
      exact .conditional (hheading.legible htokens.1) (ih htokens.2)
  | choice hheading _ _ _ ihConsequent ihAlternative =>
      rw [tokens, List.forall_mem_append, List.forall_mem_append, List.forall_mem_cons] at htokens
      exact .choice (hheading.legible htokens.1) (ihConsequent htokens.2.1)
        (ihAlternative htokens.2.2.2)
  | whileLoop hheading _ ih =>
      rw [tokens, List.forall_mem_append] at htokens
      exact .loop (hheading.legible htokens.1) (ih htokens.2)
  | forLoop hcounting _ ih =>
      rw [tokens, List.forall_mem_append] at htokens
      exact hcounting.legible htokens.1 (ih htokens.2)
  | declare hdeclaration => exact hdeclaration.legible htokens
  | statement _ ih => exact ih htokens

end Clause

theorem Listing.WellFormed.legible {listing : Listing} (h : listing.WellFormed)
    (htokens : ∀ token ∈ listing.tokens, token.Spelled) :
    ∀ statement ∈ listing.program, statement.Legible := by
  rw [Listing.tokens, Clause.forall_mem_tokensRow] at htokens
  rw [Listing.program, Clause.treeRow_eq_map, List.forall_mem_map]
  exact fun clause hmem => (h.fits clause hmem).legible (htokens clause hmem)

end Treewalk
