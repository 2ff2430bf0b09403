import Treewalk.Interpreter
import Treewalk.Proofs.Evaluation.Appending

/-!
Trees in which one expression more stands in parentheses. A group has the value of what it encloses,
so such trees are evaluated and executed alike.
-/

namespace Treewalk

/-- The second expression is the first, but for one occurrence of `inner` that stands in
parentheses. -/
inductive Expr.Groups (inner : Expr) : Expr → Expr → Prop
  | here : Groups inner inner (.group inner)
  | group {value value' : Expr} : Groups inner value value' →
      Groups inner (.group value) (.group value')
  | operand {operator : Token} {operand operand' : Expr} : Groups inner operand operand' →
      Groups inner (.unary operator operand) (.unary operator operand')
  | left {left left' right : Expr} {operator : Token} : Groups inner left left' →
      Groups inner (.binary left operator right) (.binary left' operator right)
  | right {left right right' : Expr} {operator : Token} : Groups inner right right' →
      Groups inner (.binary left operator right) (.binary left operator right')
  | first {left left' right : Expr} {operator : Token} : Groups inner left left' →
      Groups inner (.logical left operator right) (.logical left' operator right)
  | second {left right right' : Expr} {operator : Token} : Groups inner right right' →
      Groups inner (.logical left operator right) (.logical left operator right')
  | assigned {name : Token} {value value' : Expr} : Groups inner value value' →
      Groups inner (.assign name value) (.assign name value')
  | callee {callee callee' : Expr} {closing : Token} {arguments : List Expr} :
      Groups inner callee callee' →
      Groups inner (.call callee closing arguments) (.call callee' closing arguments)
  | argument {callee argument argument' : Expr} {closing : Token} {before after : List Expr} :
      Groups inner argument argument' →
      Groups inner (.call callee closing (before ++ argument :: after))
        (.call callee closing (before ++ argument' :: after))

inductive Stmt.Groups (inner : Expr) : Stmt → Stmt → Prop
  | expression {value value' : Expr} : Expr.Groups inner value value' →
      Groups inner (.expression value) (.expression value')
  | print {value value' : Expr} : Expr.Groups inner value value' →
      Groups inner (.print value) (.print value')
  | initial {name : Token} {value value' : Expr} : Expr.Groups inner value value' →
      Groups inner (.declare name (some value)) (.declare name (some value'))
  | item {before after : List Stmt} {statement statement' : Stmt} :
      Groups inner statement statement' →
      Groups inner (.block (before ++ statement :: after)) (.block (before ++ statement' :: after))
  | condition {condition condition' : Expr} {consequent : Stmt} {alternative : Option Stmt} :
      Expr.Groups inner condition condition' →
      Groups inner (.conditional condition consequent alternative)
        (.conditional condition' consequent alternative)
  | consequent {condition : Expr} {consequent consequent' : Stmt} {alternative : Option Stmt} :
      Groups inner consequent consequent' →
      Groups inner (.conditional condition consequent alternative)
        (.conditional condition consequent' alternative)
  | alternative {condition : Expr} {consequent alternative alternative' : Stmt} :
      Groups inner alternative alternative' →
      Groups inner (.conditional condition consequent (some alternative))
        (.conditional condition consequent (some alternative'))
  | test {condition condition' : Expr} {body : Stmt} : Expr.Groups inner condition condition' →
      Groups inner (.loop condition body) (.loop condition' body)
  | body {condition : Expr} {body body' : Stmt} : Groups inner body body' →
      Groups inner (.loop condition body) (.loop condition body')

inductive Program.Groups (inner : Expr) : Program → Program → Prop
  | item {before after : List Stmt} {statement statement' : Stmt} :
      Stmt.Groups inner statement statement' →
      Program.Groups inner (before ++ statement :: after) (before ++ statement' :: after)

namespace Expr

variable {inner value value' : Expr} (frame : FrameId)

theorem evaluateRow_congr (before : List Expr) (h : value'.evaluate frame = value.evaluate frame)
    (after : List Expr) :
    evaluateRow frame (before ++ value' :: after) =
      evaluateRow frame (before ++ value :: after) := by
  induction before with
  | nil => rw [List.nil_append, List.nil_append, evaluateRow, evaluateRow, h]
  | cons first before ih => rw [List.cons_append, List.cons_append, evaluateRow, evaluateRow, ih]

theorem Groups.evaluate_eq (h : Groups inner value value') :
    value'.evaluate frame = value.evaluate frame := by
  induction h with
  | here => rw [evaluate]
  | group _ ih | operand _ ih | left _ ih | right _ ih | first _ ih | second _ ih
  | assigned _ ih | callee _ ih => rw [evaluate, evaluate, ih]
  | argument _ ih => rw [evaluate, evaluate, evaluateRow_congr frame _ ih]

theorem Groups.holds_eq (h : Groups inner value value') :
    value'.holds frame = value.holds frame := by
  rw [holds, holds, h.evaluate_eq]

end Expr

namespace Stmt

variable {inner : Expr} {statement statement' : Stmt} (rounds : Nat)

theorem executeRow_congr (frame : FrameId) (before : List Stmt)
    (h : statement'.execute rounds frame = statement.execute rounds frame) (after : List Stmt) :
    executeRow rounds frame (before ++ statement' :: after) =
      executeRow rounds frame (before ++ statement :: after) := by
  rw [executeRow_append, executeRow_append, executeRow, executeRow, h]

theorem Groups.execute_eq (h : Groups inner statement statement') (frame : FrameId) :
    statement'.execute rounds frame = statement.execute rounds frame := by
  induction h generalizing frame with
  | expression hvalue | print hvalue | initial hvalue =>
      rw [execute, execute, hvalue.evaluate_eq]
  | item _ ih => simp only [execute, executeRow_congr rounds _ _ (ih _)]
  | @condition _ _ _ alternative hcondition =>
      cases alternative <;> rw [execute, execute, hcondition.holds_eq]
  | @consequent _ _ _ alternative _ ih => cases alternative <;> rw [execute, execute, ih]
  | alternative _ ih => rw [execute, execute, ih]
  | test hcondition => rw [execute, execute, hcondition.holds_eq]
  | body _ ih => rw [execute, execute, ih]

theorem Groups.conclude_eq (h : Groups inner statement statement') (echo : Bool) :
    statement'.conclude rounds echo = statement.conclude rounds echo := by
  have hexecute := h.execute_eq rounds FrameId.global
  cases echo with
  | false => exact hexecute
  | true =>
      cases h with
      | expression hvalue => rw [conclude, conclude, hvalue.evaluate_eq]
      | print | initial | item | condition | consequent | alternative | test | body =>
          exact hexecute

end Stmt

theorem Program.Groups.run_eq {inner : Expr} {program program' : Program}
    (h : Program.Groups inner program program') (rounds : Nat) (echo : Bool) :
    program'.run rounds echo = program.run rounds echo := by
  cases h with
  | @item before after statement statement' hstatement =>
      induction before with
      | nil =>
          cases after with
          | nil => exact hstatement.conclude_eq rounds echo
          | cons second rest =>
              rw [List.nil_append, List.nil_append, run, run, hstatement.execute_eq]
      | cons first before ih =>
          rw [List.cons_append, List.cons_append, run_cons (by simp), run_cons (by simp), ih]

/-- A program is executed in the same way with one expression more in parentheses. -/
theorem Program.Groups.interpreter_execute_eq {inner : Expr} {program program' : Program}
    (h : Program.Groups inner program program') (rounds : Nat) (interpreter : Interpreter) :
    interpreter.execute rounds program' = interpreter.execute rounds program := by
  rw [Interpreter.execute, Interpreter.execute, h.run_eq]

end Treewalk
