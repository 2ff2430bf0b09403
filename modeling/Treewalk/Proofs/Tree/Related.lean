import Treewalk.Parsing.Statement
import Mathlib.Data.List.Forall2

/-!
Trees of one shape whose tokens are related place by place.
-/

namespace Treewalk

mutual

inductive Expr.Related (related : Token → Token → Prop) : Expr → Expr → Prop
  | constant (value : Constant) : Related related (.constant value) (.constant value)
  | group {inner inner' : Expr} : Related related inner inner' →
      Related related (.group inner) (.group inner')
  | unary {operator operator' : Token} {operand operand' : Expr} : related operator operator' →
      Related related operand operand' →
      Related related (.unary operator operand) (.unary operator' operand')
  | binary {left left' right right' : Expr} {operator operator' : Token} :
      Related related left left' → related operator operator' → Related related right right' →
      Related related (.binary left operator right) (.binary left' operator' right')
  | logical {left left' right right' : Expr} {operator operator' : Token} :
      Related related left left' → related operator operator' → Related related right right' →
      Related related (.logical left operator right) (.logical left' operator' right')
  | var {name name' : Token} : related name name' → Related related (.var name) (.var name')
  | assign {name name' : Token} {value value' : Expr} : related name name' →
      Related related value value' → Related related (.assign name value) (.assign name' value')
  | call {callee callee' : Expr} {closing closing' : Token} {arguments arguments' : List Expr} :
      Related related callee callee' → related closing closing' →
      Expr.RelatedRow related arguments arguments' →
      Related related (.call callee closing arguments) (.call callee' closing' arguments')

inductive Expr.RelatedRow (related : Token → Token → Prop) : List Expr → List Expr → Prop
  | nil : RelatedRow related [] []
  | cons {first first' : Expr} {rest rest' : List Expr} : Expr.Related related first first' →
      RelatedRow related rest rest' → RelatedRow related (first :: rest) (first' :: rest')

end

mutual

inductive Stmt.Related (related : Token → Token → Prop) : Stmt → Stmt → Prop
  | expression {value value' : Expr} : Expr.Related related value value' →
      Related related (.expression value) (.expression value')
  | print {value value' : Expr} : Expr.Related related value value' →
      Related related (.print value) (.print value')
  | declare {name name' : Token} : related name name' →
      Related related (.declare name none) (.declare name' none)
  | declareAs {name name' : Token} {value value' : Expr} : related name name' →
      Expr.Related related value value' →
      Related related (.declare name (some value)) (.declare name' (some value'))
  | block {body body' : List Stmt} : Stmt.RelatedRow related body body' →
      Related related (.block body) (.block body')
  | conditional {condition condition' : Expr} {consequent consequent' : Stmt} :
      Expr.Related related condition condition' → Related related consequent consequent' →
      Related related (.conditional condition consequent none)
        (.conditional condition' consequent' none)
  | choice {condition condition' : Expr} {consequent consequent' alternative alternative' : Stmt} :
      Expr.Related related condition condition' → Related related consequent consequent' →
      Related related alternative alternative' →
      Related related (.conditional condition consequent (some alternative))
        (.conditional condition' consequent' (some alternative'))
  | loop {condition condition' : Expr} {body body' : Stmt} :
      Expr.Related related condition condition' → Related related body body' →
      Related related (.loop condition body) (.loop condition' body')

inductive Stmt.RelatedRow (related : Token → Token → Prop) : List Stmt → List Stmt → Prop
  | nil : RelatedRow related [] []
  | cons {first first' : Stmt} {rest rest' : List Stmt} : Stmt.Related related first first' →
      RelatedRow related rest rest' → RelatedRow related (first :: rest) (first' :: rest')

end

theorem Expr.relatedRow_iff {related : Token → Token → Prop} {row row' : List Expr} :
    Expr.RelatedRow related row row' ↔ List.Forall₂ (Expr.Related related) row row' := by
  induction row generalizing row' with
  | nil =>
      constructor
      · rintro ⟨⟩
        exact .nil
      · rintro ⟨⟩
        exact .nil
  | cons first rest ih =>
      constructor
      · rintro ⟨⟩
        exact .cons ‹_› (ih.mp ‹_›)
      · rintro ⟨⟩
        exact .cons ‹_› (ih.mpr ‹_›)

theorem Stmt.relatedRow_iff {related : Token → Token → Prop} {row row' : List Stmt} :
    Stmt.RelatedRow related row row' ↔ List.Forall₂ (Stmt.Related related) row row' := by
  induction row generalizing row' with
  | nil =>
      constructor
      · rintro ⟨⟩
        exact .nil
      · rintro ⟨⟩
        exact .nil
  | cons first rest ih =>
      constructor
      · rintro ⟨⟩
        exact .cons ‹_› (ih.mp ‹_›)
      · rintro ⟨⟩
        exact .cons ‹_› (ih.mpr ‹_›)

mutual

theorem Expr.Related.refl {related : Token → Token → Prop} (hrefl : ∀ token, related token token)
    (value : Expr) : Expr.Related related value value := by
  match value with
  | .constant value => exact .constant value
  | .group inner => exact .group (.refl hrefl inner)
  | .unary operator operand => exact .unary (hrefl operator) (.refl hrefl operand)
  | .binary left operator right =>
      exact .binary (.refl hrefl left) (hrefl operator) (.refl hrefl right)
  | .logical left operator right =>
      exact .logical (.refl hrefl left) (hrefl operator) (.refl hrefl right)
  | .var name => exact .var (hrefl name)
  | .assign name value => exact .assign (hrefl name) (.refl hrefl value)
  | .call callee closing arguments =>
      exact .call (.refl hrefl callee) (hrefl closing) (.refl hrefl arguments)

theorem Expr.RelatedRow.refl {related : Token → Token → Prop}
    (hrefl : ∀ token, related token token) (row : List Expr) :
    Expr.RelatedRow related row row := by
  match row with
  | [] => exact .nil
  | first :: rest => exact .cons (.refl hrefl first) (.refl hrefl rest)

end

mutual

theorem Stmt.Related.refl {related : Token → Token → Prop} (hrefl : ∀ token, related token token)
    (statement : Stmt) : Stmt.Related related statement statement := by
  match statement with
  | .expression value => exact .expression (.refl hrefl value)
  | .print value => exact .print (.refl hrefl value)
  | .declare name none => exact .declare (hrefl name)
  | .declare name (some value) => exact .declareAs (hrefl name) (.refl hrefl value)
  | .block body => exact .block (.refl hrefl body)
  | .conditional condition consequent none =>
      exact .conditional (.refl hrefl condition) (.refl hrefl consequent)
  | .conditional condition consequent (some alternative) =>
      exact .choice (.refl hrefl condition) (.refl hrefl consequent) (.refl hrefl alternative)
  | .loop condition body => exact .loop (.refl hrefl condition) (.refl hrefl body)

theorem Stmt.RelatedRow.refl {related : Token → Token → Prop}
    (hrefl : ∀ token, related token token) (row : List Stmt) :
    Stmt.RelatedRow related row row := by
  match row with
  | [] => exact .nil
  | first :: rest => exact .cons (.refl hrefl first) (.refl hrefl rest)

end

mutual

theorem Expr.Related.imp {related other : Token → Token → Prop}
    (himp : ∀ left right, related left right → other left right) {value value' : Expr}
    (h : Expr.Related related value value') : Expr.Related other value value' := by
  cases h with
  | constant value => exact .constant value
  | group hinner => exact .group (hinner.imp himp)
  | unary hoperator hoperand => exact .unary (himp _ _ hoperator) (hoperand.imp himp)
  | binary hleft hoperator hright =>
      exact .binary (hleft.imp himp) (himp _ _ hoperator) (hright.imp himp)
  | logical hleft hoperator hright =>
      exact .logical (hleft.imp himp) (himp _ _ hoperator) (hright.imp himp)
  | var hname => exact .var (himp _ _ hname)
  | assign hname hvalue => exact .assign (himp _ _ hname) (hvalue.imp himp)
  | call hcallee hclosing harguments =>
      exact .call (hcallee.imp himp) (himp _ _ hclosing) (harguments.imp himp)

theorem Expr.RelatedRow.imp {related other : Token → Token → Prop}
    (himp : ∀ left right, related left right → other left right) {row row' : List Expr}
    (h : Expr.RelatedRow related row row') : Expr.RelatedRow other row row' := by
  cases h with
  | nil => exact .nil
  | cons hfirst hrest => exact .cons (hfirst.imp himp) (hrest.imp himp)

end

mutual

theorem Stmt.Related.imp {related other : Token → Token → Prop}
    (himp : ∀ left right, related left right → other left right) {statement statement' : Stmt}
    (h : Stmt.Related related statement statement') :
    Stmt.Related other statement statement' := by
  cases h with
  | expression hvalue => exact .expression (hvalue.imp himp)
  | print hvalue => exact .print (hvalue.imp himp)
  | declare hname => exact .declare (himp _ _ hname)
  | declareAs hname hvalue => exact .declareAs (himp _ _ hname) (hvalue.imp himp)
  | block hbody => exact .block (hbody.imp himp)
  | conditional hcondition hconsequent =>
      exact .conditional (hcondition.imp himp) (hconsequent.imp himp)
  | choice hcondition hconsequent halternative =>
      exact .choice (hcondition.imp himp) (hconsequent.imp himp) (halternative.imp himp)
  | loop hcondition hbody => exact .loop (hcondition.imp himp) (hbody.imp himp)

theorem Stmt.RelatedRow.imp {related other : Token → Token → Prop}
    (himp : ∀ left right, related left right → other left right) {row row' : List Stmt}
    (h : Stmt.RelatedRow related row row') : Stmt.RelatedRow other row row' := by
  cases h with
  | nil => exact .nil
  | cons hfirst hrest => exact .cons (hfirst.imp himp) (hrest.imp himp)

end

theorem Stmt.Related.counting {related : Token → Token → Prop}
    {initial initial' : Option Stmt} {condition condition' increment increment' : Option Expr}
    {body body' : Stmt} (hinitial : Option.Rel (Stmt.Related related) initial initial')
    (hcondition : Option.Rel (Expr.Related related) condition condition')
    (hincrement : Option.Rel (Expr.Related related) increment increment')
    (hbody : Stmt.Related related body body') :
    Stmt.Related related (.counting initial condition increment body)
      (.counting initial' condition' increment' body') := by
  have htest : Expr.Related related (condition.getD (.constant (.boolean true)))
      (condition'.getD (.constant (.boolean true))) := by
    cases hcondition with
    | none => exact .constant _
    | some h => exact h
  cases hincrement with
  | none =>
      cases hinitial with
      | none => exact .loop htest hbody
      | some h => exact .block (.cons h (.cons (.loop htest hbody) .nil))
  | some hvalue =>
      have hinner := Stmt.Related.block (.cons hbody (.cons (.expression hvalue) .nil))
      cases hinitial with
      | none => exact .loop htest hinner
      | some h => exact .block (.cons h (.cons (.loop htest hinner) .nil))

end Treewalk
