import Treewalk.Proofs.Parsing.Viable

/-!
The parsers of expressions take nothing in vain: each level is viable for the language of its
phrases. Behind the tokens that a level has taken its grammar always offers what the parser
tries next, so where no attempt fits the token under the cursor, no phrase goes on with it.
-/

namespace Treewalk.Parser

open Computability
open Token (ofKinds)

variable {ι : Type} {limit : Nat} {nested : ι → Parser Expr}

theorem expect_then_viable {α : Type} (kind : TokenKind) (place : String)
    (hkind : kind ≠ .endOfText) (value : α) :
    Viable limit (ofKinds [kind]) fun _ : ι => do
      let _ ← expect kind place
      return value :=
  (Viable.expect place hkind).map fun _ => value

theorem primary_viable (hnested : Viable limit Level.assignment.language nested) :
    Viable (limit + 1) Level.primary.language fun i => primary (nested i) := by
  refine .of_first (Level.exists_mem_language .primary) fun token rest hend hlength => ?_
  have hrest := Nat.le_of_lt_succ hlength
  by_cases hname : token.kind = .identifier
  · have hmem := Level.ofKinds_identifier_le (Token.mem_ofKinds (List.mem_singleton.mpr hname))
    refine (Viable.answers_return (.var token) hend (by simp [hname]) hmem).congr ?_
    intro i cursor behind
    rw [primary, bind_eq_of_ok (peek_before cursor token behind)]
    simp only [hname]
  by_cases hopening : token.kind = .leftParen
  · have hinner := hnested.bind fun inner =>
      expect_then_viable .rightParen "after expression" (by simp) (Expr.group inner)
    have hanswers := hinner.answers_advance hend hrest (by simp [hopening])
      (Token.mem_ofKinds (List.mem_singleton.mpr hopening))
    refine (hanswers.mono Level.group_le).congr fun i cursor behind => ?_
    rw [primary, bind_eq_of_ok (peek_before cursor token behind)]
    simp only [hopening]
  cases hvalue : Constant.ofToken? token with
  | some value =>
      have hkind : token.kind ≠ .endOfText := by
        intro hkind
        simp [Constant.ofToken?, hkind] at hvalue
      have hmem := Level.constant_mem (Constant.ofToken?_eq_some_iff.mp hvalue)
      refine (Viable.answers_return (.constant value) hend hkind hmem).congr ?_
      intro i cursor behind
      rw [primary, bind_eq_of_ok (peek_before cursor token behind), hvalue]
      refine congrFun ?_ _
      split
      · contradiction
      · contradiction
      · next heq _ _ => cases heq; rfl
      · contradiction
  | none =>
      have hfail : Viable (limit + 1) Level.primary.language fun _ : ι =>
          (fail .expectedExpression : Parser Expr) :=
        .fail rfl (Level.exists_mem_language .primary)
      refine (hfail.answers _ hend hlength).congr fun i cursor behind => ?_
      rw [primary, bind_eq_of_ok (peek_before cursor token behind), hvalue]
      refine congrFun ?_ _
      split
      · contradiction
      · contradiction
      · contradiction
      · rfl

theorem limitArguments_viable (count : Nat) :
    Viable limit 1 fun _ : ι => limitArguments count := by
  unfold limitArguments
  split
  · exact .peek (fun token => .report token rfl) ⟨[], rfl⟩
  · exact .pure ()

/-! A rule that repeats itself takes a token each time, so its bound outlasts the tokens. -/

theorem exists_succ {bound : ι → Nat} (h : ∀ i, limit + 1 ≤ bound i) :
    ∃ fewer : ι → Nat, bound = (fun i => fewer i + 1) ∧ ∀ i, limit ≤ fewer i := by
  refine ⟨fun i => bound i - 1, ?_, fun i => Nat.le_sub_one_of_lt (h i)⟩
  funext i
  exact (Nat.sub_add_cancel (Nat.one_le_of_lt (h i))).symm

theorem arguments_viable (hnested : Viable limit Level.assignment.language nested)
    (bound : ι → Nat) (hbound : ∀ i, limit ≤ bound i) (done : List Expr) :
    Viable limit Phrase.rows fun i => arguments (nested i) (bound i) done := by
  induction limit generalizing bound done with
  | zero => exact .zero (hnested.exists_mem.imp fun _ hmem => Level.assignment_le_rows hmem)
  | succ limit ih =>
      obtain ⟨fewer, rfl, hfewer⟩ := exists_succ hbound
      have hmore (argument : Expr) :=
        ih (hnested.of_le (Nat.le_succ limit)) fewer hfewer (argument :: done)
      have harguments : Viable (limit + 1) (1 * _) fun i =>
          arguments (nested i) (fewer i + 1) done :=
        (limitArguments_viable done.length).bind fun _ => hnested.bind fun argument =>
          .accept_succ (by simp) (fun _ _ => hmore argument) (.pure _)
      rw [one_mul] at harguments
      exact harguments.mono Level.arguments_le

theorem finishCall_viable (hnested : Viable limit Level.assignment.language nested)
    (bound : ι → Nat) (hbound : ∀ i, limit ≤ bound i) (callee : Expr) :
    Viable limit ((1 + Phrase.rows) * ofKinds [.rightParen])
      fun i => finishCall (nested i) (bound i) callee := by
  have hlist : Viable limit (1 + Phrase.rows) fun i => argumentList (nested i) (bound i) :=
    .check (.pure []) (arguments_viable hnested bound hbound [])
  have hclosing : Viable limit (ofKinds [.rightParen]) fun _ : ι =>
      expect .rightParen "after arguments" := .expect _ (by simp)
  exact hlist.bind fun arguments => hclosing.map fun closing => Expr.call callee closing arguments

theorem calls_viable (hnested : Viable limit Level.assignment.language nested)
    (bound : ι → Nat) (hbound : ∀ i, limit ≤ bound i) (callee : Expr) :
    Viable limit (ofKinds [.leftParen] * ((1 + Phrase.rows) * ofKinds [.rightParen]))∗
      fun i => calls (nested i) (bound i) callee := by
  induction limit generalizing bound callee with
  | zero => exact .zero ⟨[], Language.nil_mem_kstar _⟩
  | succ limit ih =>
      obtain ⟨fewer, rfl, hfewer⟩ := exists_succ hbound
      have hfewer' (i : ι) : limit ≤ fewer i + 1 := Nat.le_succ_of_le (hfewer i)
      have hnested := hnested.of_le (Nat.le_succ limit)
      have hcalls : Viable (limit + 1) _ fun i => calls (nested i) (fewer i + 1) callee :=
        .accept_succ (by simp)
          (fun _ _ => (finishCall_viable hnested _ hfewer' callee).bind fun call =>
            ih hnested fewer hfewer call)
          (.pure callee)
      refine hcalls.mono (add_le ?_ one_le_kstar)
      rw [← mul_assoc]
      exact mul_kstar_le_kstar

theorem call_viable (hnested : Viable limit Level.assignment.language nested)
    (bound : ι → Nat) (hbound : ∀ i, limit ≤ bound i) :
    Viable (limit + 1) Level.call.language fun i => call (nested i) (bound i) := by
  have hcall := (primary_viable hnested).bind_of_nil_not_mem
    (fun callee => calls_viable hnested bound hbound callee) Level.nil_not_mem_language
  exact hcall.mono Level.calls_le

theorem unary_viable (hnested : Viable limit Level.assignment.language nested) {lower : Nat}
    (hlower : lower ≤ limit + 1) (bound : ι → Nat) (hbound : ∀ i, lower ≤ bound i) :
    Viable lower Level.unary.language fun i => unary (nested i) (bound i) := by
  induction lower generalizing bound with
  | zero => exact .zero (Level.exists_mem_language .unary)
  | succ lower ih =>
      obtain ⟨fewer, rfl, hfewer⟩ := exists_succ hbound
      have hlower := Nat.le_of_succ_le_succ hlower
      have hcall := call_viable (hnested.of_le hlower) (fun i => fewer i + 1) fun i =>
        Nat.le_succ_of_le (hfewer i)
      have hunary : Viable (lower + 1) _ fun i => unary (nested i) (fewer i + 1) :=
        .accept_succ (by simp)
          (fun operator _ => (ih (Nat.le_succ_of_le hlower) fewer hfewer).map (Expr.unary operator))
          hcall
      exact hunary.mono Level.unary_le

theorem chain_viable {language : Language Token} {operand : ι → Parser Expr}
    (hoperand : Viable limit language operand) {operators : List TokenKind}
    (hoperators : .endOfText ∉ operators) (node : Expr → Token → Expr → Expr) (bound : ι → Nat)
    (hbound : ∀ i, limit ≤ bound i) (left : Expr) :
    Viable limit (ofKinds operators * language)∗
      fun i => chain operators node (operand i) (bound i) left := by
  induction limit generalizing bound left with
  | zero => exact .zero ⟨[], Language.nil_mem_kstar _⟩
  | succ limit ih =>
      obtain ⟨fewer, rfl, hfewer⟩ := exists_succ hbound
      have hoperand := hoperand.of_le (Nat.le_succ limit)
      have hchain : Viable (limit + 1) _ fun i =>
          chain operators node (operand i) (fewer i + 1) left :=
        .accept_succ hoperators
          (fun operator _ => hoperand.bind fun right =>
            ih hoperand fewer hfewer (node left operator right))
          (.pure left)
      refine hchain.mono (add_le ?_ one_le_kstar)
      rw [← mul_assoc]
      exact mul_kstar_le_kstar

theorem leftAssociative_viable (level : Level) (hlevel : level.isBinary)
    {operand : ι → Parser Expr} (hoperand : Viable limit level.tighter.language operand)
    (node : Expr → Token → Expr → Expr) (bound : ι → Nat) (hbound : ∀ i, limit ≤ bound i) :
    Viable limit level.language
      fun i => leftAssociative level.operators node (operand i) (bound i) := by
  have hchain := hoperand.bind fun left =>
    chain_viable hoperand level.endOfText_not_mem_operators node bound hbound left
  exact hchain.mono (Level.chain_le hlevel)

theorem disjunction_viable (hnested : Viable limit Level.assignment.language nested)
    (bound : ι → Nat) (hbound : ∀ i, limit + 1 ≤ bound i) :
    Viable (limit + 1) Level.disjunction.language
      fun i => disjunction (nested i) (bound i) := by
  have hunary := unary_viable hnested le_rfl bound hbound
  have hproduct := leftAssociative_viable .product rfl hunary .binary bound hbound
  have hsum := leftAssociative_viable .sum rfl hproduct .binary bound hbound
  have hcomparison := leftAssociative_viable .comparison rfl hsum .binary bound hbound
  have hequality := leftAssociative_viable .equality rfl hcomparison .binary bound hbound
  have hconjunction := leftAssociative_viable .conjunction rfl hequality .logical bound hbound
  exact leftAssociative_viable .disjunction rfl hconjunction .logical bound hbound

theorem assignment_viable (hnested : Viable limit Level.assignment.language nested)
    (bound : ι → Nat) (hbound : ∀ i, limit + 1 ≤ bound i) :
    Viable (limit + 1) Level.assignment.language fun i => assignment (nested i) (bound i) := by
  have hassignment : Viable (limit + 1) (Level.disjunction.language *
      (ofKinds [.equal] * (Level.assignment.language * 1) + 1))
      fun i => assignment (nested i) (bound i) := by
    refine (disjunction_viable hnested bound hbound).bind fun target => ?_
    refine .accept_succ (by simp) (fun equals _ => hnested.bind fun value => ?_) (.pure target)
    cases target with
    | var name => exact .pure _
    | constant | group | unary | binary | logical | assign | call =>
        exact (Viable.report equals rfl).map fun _ => _
  rw [mul_one] at hassignment
  exact hassignment.mono Level.assignment_le

theorem expression_viable (bound : ι → Nat) (hbound : ∀ i, limit ≤ bound i) :
    Viable limit Level.assignment.language fun i => expression (bound i) := by
  induction limit generalizing bound with
  | zero => exact .zero (Level.exists_mem_language .assignment)
  | succ limit ih =>
      obtain ⟨fewer, rfl, hfewer⟩ := exists_succ hbound
      exact assignment_viable (ih fewer hfewer) _ hbound

end Treewalk.Parser
