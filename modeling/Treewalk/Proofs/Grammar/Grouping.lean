import Treewalk.Proofs.Grammar.Operators
import Treewalk.Proofs.Tree.Grouping

/-!
Parentheses around the tokens of an expression. Wherever an expression stands in a listing, there
is room for parentheses around its tokens, and with them it is a group where it was by itself. Only
the condition that a counting loop does not have cannot be put in parentheses, since its tree is
there without tokens.
-/

namespace Treewalk

namespace Expr

/-- The tokens are those of a strict phrase of a level with this tree. -/
def WrittenAs (level : Level) (value : Expr) (tokens : List Token) : Prop :=
  ∃ phrase : Phrase, phrase.Fits level ∧ phrase.Strict ∧ phrase.tree = value ∧
    phrase.tokens = tokens

/-- Among the tokens are those of an expression. With any parentheses around these, the tokens are
accepted. -/
def Enclosable (inner : Expr) (tokens : List Token) (accepts : List Token → Prop) : Prop :=
  ∃ before part after, tokens = before ++ (part ++ after) ∧ inner.WrittenAs .assignment part ∧
    ∀ opening closing : Token, opening.kind = .leftParen → closing.kind = .rightParen →
      accepts (before ++ opening :: (part ++ closing :: after))

variable {inner : Expr} {tokens : List Token} {accepts accepts' : List Token → Prop}

theorem Enclosable.imp (h : inner.Enclosable tokens accepts)
    (himp : ∀ middle, accepts middle → accepts' middle) : inner.Enclosable tokens accepts' := by
  obtain ⟨before, part, after, htokens, hpart, hall⟩ := h
  exact ⟨before, part, after, htokens, hpart, fun opening closing hopening hclosing =>
    himp _ (hall opening closing hopening hclosing)⟩

theorem Enclosable.between (h : inner.Enclosable tokens accepts) (front back : List Token)
    (haccepts : ∀ middle, accepts middle → accepts' (front ++ (middle ++ back))) :
    inner.Enclosable (front ++ (tokens ++ back)) accepts' := by
  obtain ⟨before, part, after, rfl, hpart, hall⟩ := h
  refine ⟨front ++ before, part, after ++ back, by simp, hpart, ?_⟩
  intro opening closing hopening hclosing
  simpa using haccepts _ (hall opening closing hopening hclosing)

/-- The tokens of an expression that end a row, behind some others. -/
theorem Enclosable.behind (h : inner.Enclosable tokens accepts) (front : List Token)
    (haccepts : ∀ middle, accepts middle → accepts' (front ++ middle)) :
    inner.Enclosable (front ++ tokens) accepts' := by
  simpa using h.between front [] (by simpa using haccepts)

theorem Enclosable.ahead (h : inner.Enclosable tokens accepts) (back : List Token)
    (haccepts : ∀ middle, accepts middle → accepts' (middle ++ back)) :
    inner.Enclosable (tokens ++ back) accepts' :=
  h.between [] back haccepts

end Expr

/-- A part of two operands is one of them, or within one of them. -/
theorem Level.groups_node {level : Level} {inner left right value' : Expr} {operator : Token}
    (h : Expr.Groups inner (level.node left operator right) value') :
    (inner = level.node left operator right ∧ value' = .group inner) ∨
      (∃ left', Expr.Groups inner left left' ∧ value' = level.node left' operator right) ∨
      ∃ right', Expr.Groups inner right right' ∧ value' = level.node left operator right' := by
  cases level with
  | disjunction | conjunction =>
      cases h with
      | here => exact .inl ⟨rfl, rfl⟩
      | first hleft => exact .inr (.inl ⟨_, hleft, rfl⟩)
      | second hright => exact .inr (.inr ⟨_, hright, rfl⟩)
  | assignment | equality | comparison | sum | product | unary | call | primary =>
      cases h with
      | here => exact .inl ⟨rfl, rfl⟩
      | left hleft => exact .inr (.inl ⟨_, hleft, rfl⟩)
      | right hright => exact .inr (.inr ⟨_, hright, rfl⟩)

namespace Phrase

variable {level : Level} {phrase : Phrase} {inner value' : Expr}

theorem Fits.of_primary (h : phrase.Fits .primary) : phrase.Fits level := by
  cases level <;> repeat' first | exact h | apply Fits.tighter

theorem Fits.to_assignment (h : phrase.Fits level) : phrase.Fits .assignment := by
  cases level <;> repeat' first | exact h | apply Fits.tighter

theorem strictRow_iff {row : List Phrase} :
    StrictRow row ↔ ∀ argument ∈ row, argument.Strict := by
  induction row with
  | nil => simp [StrictRow]
  | cons first rest ih => simp [StrictRow, ih]

theorem Fits.enclosable_self (h : phrase.Fits level) (hstrict : phrase.Strict) :
    phrase.tree.Enclosable phrase.tokens ((Expr.group phrase.tree).WrittenAs level) := by
  refine ⟨[], phrase.tokens, [], by simp, ⟨phrase, h.to_assignment, hstrict, rfl, rfl⟩, ?_⟩
  intro opening closing hopening hclosing
  exact ⟨.group opening phrase closing, .of_primary (.group hopening h.to_assignment hclosing),
    hstrict, by simp [tree], by simp [tokens]⟩

/-- Every expression within a phrase can stand in parentheses. -/
theorem Fits.enclosable (h : phrase.Fits level) (hstrict : phrase.Strict)
    (hgroups : Expr.Groups inner phrase.tree value') :
    inner.Enclosable phrase.tokens (value'.WrittenAs level) := by
  induction h generalizing value' with
  | constant hwritten =>
      rw [tree] at hgroups
      cases hgroups with
      | here => exact (Fits.constant hwritten).enclosable_self hstrict
  | var hname =>
      rw [tree] at hgroups
      cases hgroups with
      | here => exact (Fits.var hname).enclosable_self hstrict
  | @group opening closing _ hopening hinner hclosing ih =>
      rw [tree] at hgroups
      cases hgroups with
      | here => exact (Fits.group hopening hinner hclosing).enclosable_self hstrict
      | group hgroups =>
          refine (ih hstrict hgroups).between [opening] [closing] ?_
          rintro _ ⟨other, hother, hstrict', rfl, rfl⟩
          exact ⟨.group opening other closing, .group hopening hother hclosing, hstrict',
            by simp [tree], by simp [tokens]⟩
  | @call callee opening closing arguments commas hcallee hopening harguments hcommas hlength
      hclosing ihCallee ihArguments =>
      obtain ⟨hstrictCallee, hcount, hstrictRow⟩ := hstrict
      rw [tree] at hgroups
      generalize hrow : treeRow arguments = row at hgroups
      cases hgroups with
      | here =>
          subst hrow
          exact (Fits.call hcallee hopening harguments hcommas hlength hclosing).enclosable_self
            ⟨hstrictCallee, hcount, hstrictRow⟩
      | callee hgroups =>
          rw [tokens]
          refine (ihCallee hstrictCallee hgroups).ahead _ ?_
          rintro _ ⟨other, hother, hstrict', rfl, rfl⟩
          exact ⟨.call other opening arguments commas closing,
            .call hother hopening harguments hcommas hlength hclosing,
            ⟨hstrict', hcount, hstrictRow⟩, by rw [tree, hrow], by rw [tokens]⟩
      | argument hgroups =>
          rw [treeRow_eq_map, List.map_eq_append_iff] at hrow
          obtain ⟨before, others, rfl, rfl, hrow⟩ := hrow
          obtain ⟨argument, after, rfl, rfl, rfl⟩ := List.map_eq_cons_iff.mp hrow
          rw [strictRow_iff] at hstrictRow
          rw [List.forall_mem_append, List.forall_mem_cons] at harguments hstrictRow
          obtain ⟨front, back, hsplit⟩ := exists_separated (before.map tokens) (after.map tokens)
            commas
          have hseparated (other : Phrase) :
              separated (tokensRow (before ++ other :: after)) commas =
                front ++ (other.tokens ++ back) := by
            rw [tokensRow_eq_map, List.map_append, List.map_cons, hsplit]
          have hargument := ihArguments argument (by simp) hstrictRow.2.1 hgroups
          have htokens (middle : List Token) :
              callee.tokens ++ opening :: (front ++ (middle ++ back) ++ [closing]) =
                callee.tokens ++ opening :: front ++ (middle ++ (back ++ [closing])) := by
            simp
          rw [tokens, hseparated, htokens]
          refine hargument.between _ _ ?_
          rintro _ ⟨other, hother, hstrict', rfl, rfl⟩
          refine ⟨.call callee opening (before ++ other :: after) commas closing,
            .call hcallee hopening ?_ hcommas (by simpa using hlength) hclosing,
            ⟨hstrictCallee, by simpa using hcount, ?_⟩, ?_, ?_⟩
          · rw [List.forall_mem_append, List.forall_mem_cons]
            exact ⟨harguments.1, hother, harguments.2.2⟩
          · rw [strictRow_iff, List.forall_mem_append, List.forall_mem_cons]
            exact ⟨hstrictRow.1, hstrict', hstrictRow.2.2⟩
          · rw [tree, treeRow_eq_map, List.map_append, List.map_cons]
          · rw [tokens, hseparated, htokens]
  | @unary operator operand hoperator hoperand ih =>
      rw [tree] at hgroups
      cases hgroups with
      | here => exact (Fits.unary hoperator hoperand).enclosable_self hstrict
      | operand hgroups =>
          refine (ih hstrict hgroups).behind [operator] ?_
          rintro _ ⟨other, hother, hstrict', rfl, rfl⟩
          exact ⟨.unary operator other, .unary hoperator hother, hstrict', by simp [tree],
            by simp [tokens]⟩
  | @binary level left right operator hlevel hleft hoperator hright ihLeft ihRight =>
      rw [tree_binary hlevel hoperator] at hgroups
      obtain ⟨hstrictLeft, hstrictRight⟩ := hstrict
      rcases Level.groups_node hgroups with
        ⟨rfl, rfl⟩ | ⟨left', hoperand, rfl⟩ | ⟨right', hoperand, rfl⟩
      · have hself := (Fits.binary hlevel hleft hoperator hright).enclosable_self
          ⟨hstrictLeft, hstrictRight⟩
        rwa [tree_binary hlevel hoperator] at hself
      · rw [tokens]
        refine (ihLeft hstrictLeft hoperand).ahead _ ?_
        rintro _ ⟨other, hother, hstrict', rfl, rfl⟩
        exact ⟨.binary other operator right, .binary hlevel hother hoperator hright,
          ⟨hstrict', hstrictRight⟩, tree_binary hlevel hoperator _ _, by rw [tokens]⟩
      · have htokens (middle : List Token) :
            left.tokens ++ operator :: middle = left.tokens ++ [operator] ++ middle := by simp
        rw [tokens, htokens]
        refine (ihRight hstrictRight hoperand).behind _ ?_
        rintro _ ⟨other, hother, hstrict', rfl, rfl⟩
        exact ⟨.binary left operator other, .binary hlevel hleft hoperator hother,
          ⟨hstrictLeft, hstrict'⟩, tree_binary hlevel hoperator _ _, by rw [tokens, htokens]⟩
  | @assign target value equals htarget hequals hvalue _ ihValue =>
      obtain ⟨⟨name, rfl⟩, hstrictValue⟩ := hstrict
      rw [tree_assign_var] at hgroups
      cases hgroups with
      | here =>
          have hself := (Fits.assign htarget hequals hvalue).enclosable_self
            ⟨⟨name, rfl⟩, hstrictValue⟩
          rwa [tree_assign_var] at hself
      | assigned hgroups =>
          refine (ihValue hstrictValue hgroups).behind [name, equals] ?_
          rintro _ ⟨other, hother, hstrict', rfl, rfl⟩
          exact ⟨.assign (.var name) equals other, .assign htarget hequals hother,
            ⟨⟨name, rfl⟩, hstrict'⟩, tree_assign_var _ _ _, by simp [tokens]⟩
  | tighter _ ih =>
      refine (ih hstrict hgroups).imp ?_
      rintro _ ⟨other, hother, hothers⟩
      exact ⟨other, .tighter hother, hothers⟩

end Phrase

end Treewalk
