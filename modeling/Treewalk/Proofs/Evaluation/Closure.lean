import Treewalk.Proofs.Evaluation.Steps

/-!
What the steps of expressions have in common. A property of these steps that runs keep when one
follows the other is a property of the evaluation of every expression.
-/

namespace Treewalk

mutual

/-- The names to which an expression assigns. -/
def Expr.assigned : Expr → List Token
  | .constant _ => []
  | .group inner => inner.assigned
  | .unary _ operand => operand.assigned
  | .binary left _ right => left.assigned ++ right.assigned
  | .logical left _ right => left.assigned ++ right.assigned
  | .var _ => []
  | .assign name value => name :: value.assigned
  | .call callee _ arguments => callee.assigned ++ Expr.assignedRow arguments

def Expr.assignedRow : List Expr → List Token
  | [] => []
  | first :: rest => first.assigned ++ Expr.assignedRow rest

end

namespace Run

/-- The steps of expressions other than assignments have the property, and a run has it that is
put together from runs that have it. -/
structure Composed (property : {α : Type} → Run α → Prop) : Prop where
  pure {α : Type} (value : α) : property (Pure.pure value : Run α)
  stop {α : Type} (reason : Stop) : property (Run.stop reason : Run α)
  bind {α β : Type} {first : Run α} {next : α → Run β} :
    property first → (∀ value, property (next value)) → property (first >>= next)
  lookup (frame : FrameId) (name : Token) : property (Run.lookup frame name)
  readClock : property Run.readClock

/-- All steps of expressions have the property. -/
structure Closed (property : {α : Type} → Run α → Prop) : Prop extends Composed property where
  assign (frame : FrameId) (name : Token) (value : Value) : property (Run.assign frame name value)

namespace Composed

variable {property : {α : Type} → Run α → Prop}

theorem ofExcept (h : Composed property) {α : Type} (result : Except Stop α) :
    property (Run.ofExcept result) := by
  cases result with
  | ok value => exact h.pure value
  | error reason => exact h.stop reason

theorem map (h : Composed property) {α β : Type} (change : α → β) {run : Run α}
    (hrun : property run) : property (change <$> run) := by
  rw [map_eq_pure_bind]
  exact h.bind hrun fun value => h.pure (change value)

theorem repeatWhile (h : Composed property) {test : Run Bool} {body : Run Unit}
    (htest : property test) (hbody : property body) (rounds : Nat) :
    property (Run.repeatWhile test body rounds) := by
  induction rounds with
  | zero => exact h.stop _
  | succ rounds ih =>
      apply h.bind htest
      intro holds
      cases holds with
      | true => exact h.bind hbody fun _ => ih
      | false => exact h.pure ()

theorem call (h : Composed property) (callee : Value) (closing : Token) (arguments : List Value) :
    property (callee.call closing arguments) := by
  cases callee with
  | native function =>
      simp only [Value.call, Native.call]
      split
      · cases function.builtin with
        | clock => exact h.map _ h.readClock
        | lastArgument => exact h.pure _
      · exact h.stop _
  | nil | boolean | number | string => exact h.stop _

/-! An expression has the property if its assignments have it. -/

mutual

theorem evaluate (h : Composed property) (frame : FrameId) (value : Expr)
    (hassign : ∀ name ∈ value.assigned, ∀ value, property (Run.assign frame name value)) :
    property (value.evaluate frame) := by
  match value with
  | .constant _ => exact h.pure _
  | .group inner =>
      rw [Expr.evaluate]
      exact h.evaluate frame inner hassign
  | .unary _ operand =>
      rw [Expr.evaluate]
      exact h.bind (h.evaluate frame operand hassign) fun _ => h.ofExcept _
  | .binary left _ right =>
      rw [Expr.assigned, List.forall_mem_append] at hassign
      rw [Expr.evaluate]
      exact h.bind (h.evaluate frame left hassign.1) fun _ =>
        h.bind (h.evaluate frame right hassign.2) fun _ => h.ofExcept _
  | .logical left _ right =>
      rw [Expr.assigned, List.forall_mem_append] at hassign
      rw [Expr.evaluate]
      apply h.bind (h.evaluate frame left hassign.1)
      intro _
      split
      · exact h.pure _
      · exact h.evaluate frame right hassign.2
  | .var name =>
      rw [Expr.evaluate]
      exact h.lookup frame name
  | .assign name value =>
      rw [Expr.assigned, List.forall_mem_cons] at hassign
      rw [Expr.evaluate]
      exact h.bind (h.evaluate frame value hassign.2) fun value =>
        h.bind (hassign.1 value) fun _ => h.pure _
  | .call callee closing arguments =>
      rw [Expr.assigned, List.forall_mem_append] at hassign
      rw [Expr.evaluate]
      exact h.bind (h.evaluate frame callee hassign.1) fun callee =>
        h.bind (h.evaluateRow frame arguments hassign.2) fun arguments =>
          h.call callee closing arguments

theorem evaluateRow (h : Composed property) (frame : FrameId) (row : List Expr)
    (hassign : ∀ name ∈ Expr.assignedRow row, ∀ value,
      property (Run.assign frame name value)) :
    property (Expr.evaluateRow frame row) := by
  match row with
  | [] => exact h.pure _
  | first :: rest =>
      rw [Expr.assignedRow, List.forall_mem_append] at hassign
      rw [Expr.evaluateRow]
      exact h.bind (h.evaluate frame first hassign.1) fun _ =>
        h.bind (h.evaluateRow frame rest hassign.2) fun _ => h.pure _

end

theorem holds (h : Composed property) (frame : FrameId) (condition : Expr)
    (hassign : ∀ name ∈ condition.assigned, ∀ value, property (Run.assign frame name value)) :
    property (condition.holds frame) :=
  h.bind (h.evaluate frame condition hassign) fun _ => h.pure _

end Composed

namespace Closed

variable {property : {α : Type} → Run α → Prop}

theorem evaluate (h : Closed property) (frame : FrameId) (value : Expr) :
    property (value.evaluate frame) :=
  h.toComposed.evaluate frame value fun name _ => h.assign frame name

theorem evaluateRow (h : Closed property) (frame : FrameId) (row : List Expr) :
    property (Expr.evaluateRow frame row) :=
  h.toComposed.evaluateRow frame row fun name _ => h.assign frame name

theorem holds (h : Closed property) (frame : FrameId) (condition : Expr) :
    property (condition.holds frame) :=
  h.toComposed.holds frame condition fun name _ => h.assign frame name

end Closed

end Run

end Treewalk
