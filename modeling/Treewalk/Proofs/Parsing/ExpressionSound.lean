import Treewalk.Proofs.Parsing.Steps

/-!
What the parser of expressions reads are phrases. Each level reads a phrase that fits it, returns
the tree of that phrase and makes the remarks that the phrase deserves.
-/

namespace Treewalk.Parser

open Cursor

/-- All that a parser can read are phrases of a level, with their trees and remarks. -/
def Derives (level : Level) (parser : Parser Expr) : Prop :=
  ∀ start value finish, parser start = .ok value finish →
    ∃ phrase : Phrase, phrase.Fits level ∧ phrase.tree = value ∧
      start.Passes phrase.tokens phrase.remarks finish

/-- Behind a phrase, more has been read that makes it a longer phrase of a level. -/
def Extends (level : Level) (left : Phrase) (start : Cursor) (value : Expr) (finish : Cursor) :
    Prop :=
  ∃ (phrase : Phrase) (tokens : List Token) (remarks : List Remark), phrase.Fits level ∧
    phrase.tree = value ∧ phrase.tokens = left.tokens ++ tokens ∧
    phrase.remarks = left.remarks ++ remarks ∧ start.Passes tokens remarks finish

theorem Extends.refl {level : Level} {left : Phrase} (hleft : left.Fits level)
    (cursor : Cursor) : Extends level left cursor left.tree cursor :=
  ⟨left, [], [], hleft, rfl, by simp, by simp, .refl cursor⟩

theorem Extends.trans {level : Level} {left longer : Phrase} {start middle finish : Cursor}
    {value : Expr} {tokens : List Token} {remarks : List Remark}
    (htokens : longer.tokens = left.tokens ++ tokens)
    (hremarks : longer.remarks = left.remarks ++ remarks)
    (hpasses : start.Passes tokens remarks middle) (h : Extends level longer middle value finish) :
    Extends level left start value finish := by
  obtain ⟨phrase, others, further, hfits, htree, htokens', hremarks', hpasses'⟩ := h
  refine ⟨phrase, _, _, hfits, htree, ?_, ?_, hpasses.trans hpasses'⟩
  · rw [htokens', htokens, List.append_assoc]
  · rw [hremarks', hremarks, List.append_assoc]

theorem Extends.derives {level : Level} {left : Phrase} {start middle finish : Cursor}
    {value : Expr} (hpasses : start.Passes left.tokens left.remarks middle)
    (h : Extends level left middle value finish) :
    ∃ phrase : Phrase, phrase.Fits level ∧ phrase.tree = value ∧
      start.Passes phrase.tokens phrase.remarks finish := by
  obtain ⟨phrase, tokens, remarks, hfits, htree, htokens, hremarks, hpasses'⟩ := h
  refine ⟨phrase, hfits, htree, ?_⟩
  rw [htokens, hremarks]
  exact hpasses.trans hpasses'

variable {nested : Parser Expr}

theorem primary_derives (hnested : Derives .assignment nested) :
    Derives .primary (primary nested) := by
  intro start value finish h
  obtain ⟨token, middle, hpeek, h⟩ := ok_of_bind h
  obtain ⟨rfl, rest, hrest⟩ := ok_of_peek hpeek
  generalize hkind : token.kind = kind, hvalue : Constant.ofToken? token = value? at h
  split at h
  · obtain ⟨hadvance, hpasses⟩ := passes_advance hrest (by simp [hkind])
    rw [bind_eq_of_ok hadvance] at h
    cases h
    exact ⟨.var token, .var hkind, rfl, hpasses⟩
  · obtain ⟨hadvance, hopening⟩ := passes_advance hrest (by simp [hkind])
    rw [bind_eq_of_ok hadvance] at h
    obtain ⟨inner, inside, hinner, h⟩ := ok_of_bind h
    obtain ⟨phrase, hfits, rfl, hphrase⟩ := hnested _ _ _ hinner
    obtain ⟨closing, after, hexpect, h⟩ := ok_of_bind h
    obtain ⟨hkind', hclosing⟩ := ok_of_expect hexpect (by simp)
    cases h
    refine ⟨.group token phrase closing, .group hkind hfits hkind', rfl, ?_⟩
    simpa [Phrase.tokens, Phrase.remarks] using (hopening.trans hphrase).trans hclosing
  · next value _ _ =>
      have hwritten := Constant.ofToken?_eq_some_iff.mp hvalue
      have hkind : token.kind ≠ .endOfText := by
        intro hkind
        simp [Constant.ofToken?, hkind] at hvalue
      obtain ⟨hadvance, hpasses⟩ := passes_advance hrest hkind
      rw [bind_eq_of_ok hadvance] at h
      cases h
      exact ⟨.constant token value, .constant hwritten, rfl, hpasses⟩
  · exact absurd h fail_ne_ok

theorem ok_of_limitArguments {count : Nat} {start finish : Cursor} {value : Unit}
    (h : limitArguments count start = .ok value finish) (argument : Phrase)
    {rest : List Token} (hrest : start.rest = argument.tokens ++ rest) :
    start.Passes [] (argument.countRemarks count) finish := by
  obtain ⟨others, hfirst⟩ := argument.tokens_eq_first
  unfold limitArguments at h
  split at h
  · next hcount =>
      obtain ⟨token, middle, hpeek, h⟩ := ok_of_bind h
      obtain ⟨rfl, after, hafter⟩ := ok_of_peek hpeek
      rw [hrest, hfirst, List.cons_append, List.cons.injEq] at hafter
      rw [Phrase.countRemarks, if_pos hcount, hafter.1]
      cases h
      exact .report start token .tooManyArguments
  · next hcount =>
      rw [Phrase.countRemarks, if_neg hcount]
      cases h
      exact .refl start

structure DerivesRow (count : Nat) (start : Cursor) (arguments : List Phrase)
    (commas : List Token) (finish : Cursor) : Prop where
  fits : ∀ argument ∈ arguments, argument.Fits .assignment
  commas_kind : ∀ comma ∈ commas, comma.kind = .comma
  length_eq : commas.length = arguments.length - 1
  passes : start.Passes (separated (Phrase.tokensRow arguments) commas)
    (Phrase.remarksRow count arguments) finish

theorem limitArguments_rest {count : Nat} {start finish : Cursor} {value : Unit}
    (h : limitArguments count start = .ok value finish) : finish.rest = start.rest := by
  unfold limitArguments at h
  split at h
  · obtain ⟨token, middle, hpeek, h⟩ := ok_of_bind h
    obtain ⟨rfl, -⟩ := ok_of_peek hpeek
    cases h
    rfl
  · cases h
    rfl

theorem arguments_derives (hnested : Derives .assignment nested) (bound : Nat)
    (done : List Expr) {start finish : Cursor} {values : List Expr}
    (h : arguments nested bound done start = .ok values finish) :
    ∃ row commas, row ≠ [] ∧ DerivesRow done.length start row commas finish ∧
      values = done.reverse ++ Phrase.treeRow row := by
  induction bound generalizing done start with
  | zero => exact absurd h exceeded_ne_ok
  | succ bound ih =>
      obtain ⟨_, limited, hlimit, h⟩ := ok_of_bind h
      obtain ⟨value, inside, hvalue, h⟩ := ok_of_bind h
      obtain ⟨phrase, hfits, rfl, hphrase⟩ := hnested _ _ _ hvalue
      have hcount := ok_of_limitArguments hlimit phrase
        (by rw [← limitArguments_rest hlimit, hphrase.rest_eq])
      have hfirst := hcount.trans hphrase
      obtain ⟨separator, after, haccept, h⟩ := ok_of_bind h
      rcases ok_of_accept haccept (by simp) with ⟨comma, rfl, hkind, hcomma⟩ | ⟨rfl, rfl, -⟩
      · obtain ⟨row, commas, hrow, hderives, rfl⟩ := ih (phrase.tree :: done) h
        refine ⟨phrase :: row, comma :: commas, List.cons_ne_nil _ _, ⟨?_, ?_, ?_, ?_⟩, ?_⟩
        · simpa [hfits] using hderives.fits
        · simpa using ⟨by simpa using hkind, hderives.commas_kind⟩
        · have := List.length_pos_iff.mpr hrow
          have := hderives.length_eq
          simp only [List.length_cons]
          omega
        · obtain ⟨second, others, rfl⟩ := List.exists_cons_of_ne_nil hrow
          simpa [Phrase.tokensRow, Phrase.remarksRow, separated] using
            (hfirst.trans hcomma).trans hderives.passes
        · simp [Phrase.treeRow]
      · cases h
        refine ⟨[phrase], [], List.cons_ne_nil _ _, ⟨?_, ?_, rfl, ?_⟩, ?_⟩
        · simpa using hfits
        · simp
        · simpa [Phrase.tokensRow, Phrase.remarksRow, separated] using hfirst
        · simp [Phrase.treeRow]

theorem argumentList_derives (hnested : Derives .assignment nested) (bound : Nat)
    {start finish : Cursor} {values : List Expr}
    (h : argumentList nested bound start = .ok values finish) :
    ∃ row commas, DerivesRow 0 start row commas finish ∧ values = Phrase.treeRow row := by
  obtain ⟨found, middle, hcheck, h⟩ := ok_of_bind h
  obtain ⟨rfl, -⟩ := ok_of_check hcheck
  split at h
  · cases h
    refine ⟨[], [], ⟨by simp, by simp, rfl, ?_⟩, rfl⟩
    simpa [Phrase.tokensRow, Phrase.remarksRow, separated] using Passes.refl start
  · obtain ⟨row, commas, -, hderives, rfl⟩ := arguments_derives hnested bound [] h
    exact ⟨row, commas, hderives, rfl⟩

theorem finishCall_derives (hnested : Derives .assignment nested) (bound : Nat)
    {callee : Phrase} (hcallee : callee.Fits .call) {opening : Token}
    (hopening : opening.kind = .leftParen) {start finish : Cursor} {value : Expr}
    (h : finishCall nested bound callee.tree start = .ok value finish) :
    ∃ row commas closing,
      (Phrase.call callee opening row commas closing).Fits .call ∧
        value = (Phrase.call callee opening row commas closing).tree ∧
        start.Passes (separated (Phrase.tokensRow row) commas ++ [closing])
          (Phrase.remarksRow 0 row) finish := by
  obtain ⟨values, inside, hvalues, h⟩ := ok_of_bind h
  obtain ⟨row, commas, hrow, rfl⟩ := argumentList_derives hnested bound hvalues
  obtain ⟨closing, after, hexpect, h⟩ := ok_of_bind h
  obtain ⟨hkind, hclosing⟩ := ok_of_expect hexpect (by simp)
  cases h
  refine ⟨row, commas, closing, ?_, by rw [Phrase.tree], ?_⟩
  · exact .call hcallee hopening hrow.fits hrow.commas_kind hrow.length_eq hkind
  · simpa using hrow.passes.trans hclosing

theorem calls_extends (hnested : Derives .assignment nested) (bound : Nat)
    {callee : Phrase} (hcallee : callee.Fits .call) {start finish : Cursor} {value : Expr}
    (h : calls nested bound callee.tree start = .ok value finish) :
    Extends .call callee start value finish := by
  induction bound generalizing callee start with
  | zero => exact absurd h exceeded_ne_ok
  | succ bound ih =>
      obtain ⟨result, middle, haccept, h⟩ := ok_of_bind h
      rcases ok_of_accept haccept (by simp) with ⟨opening, rfl, hkind, hopening⟩ | ⟨rfl, rfl, -⟩
      · obtain ⟨called, after, hcalled, h⟩ := ok_of_bind h
        obtain ⟨row, commas, closing, hfits, rfl, hrow⟩ :=
          finishCall_derives hnested (bound + 1) hcallee (by simpa using hkind) hcalled
        apply (ih hfits h).trans _ _ (hopening.trans hrow)
        · simp [Phrase.tokens]
        · simp [Phrase.remarks]
      · cases h
        exact .refl hcallee _

theorem call_derives (hnested : Derives .assignment nested) (bound : Nat) :
    Derives .call (call nested bound) := by
  intro start value finish h
  obtain ⟨callee, middle, hcallee, h⟩ := ok_of_bind h
  obtain ⟨first, hfirst, rfl, hstart⟩ := primary_derives hnested _ _ _ hcallee
  exact (calls_extends hnested bound (.tighter hfirst) h).derives hstart

theorem unary_derives (hnested : Derives .assignment nested) (bound : Nat) :
    Derives .unary (unary nested bound) := by
  induction bound with
  | zero => exact fun _ _ _ h => absurd h exceeded_ne_ok
  | succ bound ih =>
      intro start value finish h
      obtain ⟨result, middle, haccept, h⟩ := ok_of_bind h
      rcases ok_of_accept haccept (by simp) with ⟨operator, rfl, hkind, hoperator⟩ | ⟨rfl, rfl, -⟩
      · obtain ⟨operand, after, hoperand, h⟩ := ok_of_bind h
        obtain ⟨phrase, hfits, rfl, hphrase⟩ := ih _ _ _ hoperand
        cases h
        refine ⟨.unary operator phrase, .unary (by simpa using hkind) hfits, rfl, ?_⟩
        simpa [Phrase.tokens, Phrase.remarks] using hoperator.trans hphrase
      · obtain ⟨phrase, hfits, htree, hphrase⟩ := call_derives hnested (bound + 1) _ _ _ h
        exact ⟨phrase, .tighter hfits, htree, hphrase⟩

theorem chain_extends {level : Level} (hlevel : level.isBinary) {operand : Parser Expr}
    (hoperand : Derives level.tighter operand) (bound : Nat) {left : Phrase}
    (hleft : left.Fits level) {start finish : Cursor} {value : Expr}
    (h : chain level.operators level.node operand bound left.tree start = .ok value finish) :
    Extends level left start value finish := by
  induction bound generalizing left start with
  | zero => exact absurd h exceeded_ne_ok
  | succ bound ih =>
      obtain ⟨result, middle, haccept, h⟩ := ok_of_bind h
      rcases ok_of_accept haccept level.endOfText_not_mem_operators with
        ⟨operator, rfl, hkind, hoperator⟩ | ⟨rfl, rfl, -⟩
      · obtain ⟨value', after, hright, h⟩ := ok_of_bind h
        obtain ⟨right, hfits, rfl, hpassed⟩ := hoperand _ _ _ hright
        rw [← Phrase.tree_binary hlevel hkind] at h
        have hlonger := Phrase.Fits.binary hlevel hleft hkind hfits
        apply (ih hlonger h).trans _ _ (hoperator.trans hpassed)
        · simp [Phrase.tokens]
        · simp [Phrase.remarks]
      · cases h
        exact .refl hleft _

theorem leftAssociative_derives (level : Level) (hlevel : level.isBinary)
    {operand : Parser Expr} (hoperand : Derives level.tighter operand) (bound : Nat) :
    Derives level (leftAssociative level.operators level.node operand bound) := by
  intro start value finish h
  obtain ⟨first, middle, hfirst, h⟩ := ok_of_bind h
  obtain ⟨left, hleft, rfl, hstart⟩ := hoperand _ _ _ hfirst
  exact (chain_extends hlevel hoperand bound (.tighter hleft) h).derives hstart

theorem disjunction_derives (hnested : Derives .assignment nested) (bound : Nat) :
    Derives .disjunction (disjunction nested bound) := by
  have hunary : Derives .unary (unary nested bound) := unary_derives hnested bound
  have hproduct : Derives .product (product nested bound) :=
    leftAssociative_derives .product rfl hunary bound
  have hsum : Derives .sum (sum nested bound) :=
    leftAssociative_derives .sum rfl hproduct bound
  have hcomparison : Derives .comparison (comparison nested bound) :=
    leftAssociative_derives .comparison rfl hsum bound
  have hequality : Derives .equality (equality nested bound) :=
    leftAssociative_derives .equality rfl hcomparison bound
  have hconjunction : Derives .conjunction (conjunction nested bound) :=
    leftAssociative_derives .conjunction rfl hequality bound
  exact leftAssociative_derives .disjunction rfl hconjunction bound

theorem assignment_derives (hnested : Derives .assignment nested) (bound : Nat) :
    Derives .assignment (assignment nested bound) := by
  intro start value finish h
  obtain ⟨target, middle, htarget, h⟩ := ok_of_bind h
  obtain ⟨left, hleft, rfl, hstart⟩ := disjunction_derives hnested bound _ _ _ htarget
  obtain ⟨result, after, haccept, h⟩ := ok_of_bind h
  rcases ok_of_accept haccept (by simp) with ⟨equals, rfl, hkind, hequals⟩ | ⟨rfl, rfl, -⟩
  · obtain ⟨assigned, last, hassigned, h⟩ := ok_of_bind h
    obtain ⟨right, hright, rfl, hpassed⟩ := hnested _ _ _ hassigned
    have hfits := Phrase.Fits.assign hleft (by simpa using hkind) hright
    have hpasses := (hstart.trans hequals).trans hpassed
    refine ⟨.assign left equals right, hfits, ?_⟩
    by_cases hvar : ∃ name, left = .var name
    · obtain ⟨name, rfl⟩ := hvar
      cases h
      exact ⟨by simp, by simpa [Phrase.tokens, Phrase.remarks, Phrase.targetRemarks] using hpasses⟩
    · generalize htree : left.tree = tree at h
      split at h
      · next name => exact absurd ⟨name, Phrase.tree_eq_var htree⟩ hvar
      · rw [not_exists] at hvar
        cases h
        refine ⟨(Phrase.tree_assign_of_ne equals right hvar).trans htree, ?_⟩
        have hremarks : left.targetRemarks equals = [⟨equals, .invalidAssignmentTarget⟩] := by
          cases left <;> simp_all [Phrase.targetRemarks]
        simpa [Phrase.tokens, Phrase.remarks, hremarks] using hpasses.trans (.report last equals _)
  · cases h
    exact ⟨left, .tighter hleft, rfl, hstart⟩

theorem expression_derives (bound : Nat) : Derives .assignment (expression bound) := by
  induction bound with
  | zero => exact fun _ _ _ h => absurd h exceeded_ne_ok
  | succ bound ih => exact assignment_derives ih (bound + 1)

end Treewalk.Parser
