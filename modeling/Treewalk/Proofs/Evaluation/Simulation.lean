import Treewalk.Evaluation.Statement
import Treewalk.Proofs.Grammar.Placement
import Treewalk.Proofs.Tree.Related

/-!
What two runs have in common that go through trees of one shape. The runs may differ in the tokens,
in the frames in which they are and in the rounds that loops are allowed. A relation that the steps
of statements keep relates the runs of the statements as well.
-/

namespace Treewalk.Run

/-- Steps of two runs are related in a scope, which has a frame in either run, and so are runs that
are put together from related runs. In some scopes no variable is declared; a new frame is not among
these. -/
structure Simulation (token : Token → Token → Prop) {scope : Type} (left right : scope → FrameId)
    (declares : scope → Prop) (rounds rounds' : Nat)
    (related : scope → {α : Type} → Run α → Run α → Prop) : Prop where
  kind_eq {name other : Token} : token name other → name.kind = other.kind
  pure (place : scope) {α : Type} (value : α) :
    related place (Pure.pure value : Run α) (Pure.pure value)
  fault (place : scope) {α : Type} (fault : Fault) :
    related place (Run.stop (.fault fault) : Run α) (Run.stop (.fault fault))
  blame (place : scope) {α : Type} {name other : Token} : token name other → ∀ cause : Mistake,
    related place (Run.stop (name.blame cause) : Run α) (Run.stop (other.blame cause))
  bind {place : scope} {α β : Type} {first first' : Run α} {next next' : α → Run β} :
    related place first first' → (∀ value, related place (next value) (next' value)) →
      related place (first >>= next) (first' >>= next')
  lookup {name other : Token} (place : scope) : token name other →
    related place (Run.lookup (left place) name) (Run.lookup (right place) other)
  assign {name other : Token} (place : scope) (value : Value) : token name other →
    related place (Run.assign (left place) name value) (Run.assign (right place) other value)
  define {name other : Token} {place : scope} (hdeclares : declares place) (value : Value) :
    token name other →
      related place (Run.define (left place) name value) (Run.define (right place) other value)
  readClock (place : scope) : related place Run.readClock Run.readClock
  writeLine (place : scope) (value : Value) :
    related place (Run.writeLine value) (Run.writeLine value)
  inFrame (place : scope) {body body' : FrameId → Run Unit} :
    (∀ inner, declares inner → related inner (body (left inner)) (body' (right inner))) →
      related place (Run.inFrame (left place) body) (Run.inFrame (right place) body')
  repeatWhile {place : scope} {test test' : Run Bool} {body body' : Run Unit} :
    related place test test' → related place body body' →
      related place (Run.repeatWhile test body rounds) (Run.repeatWhile test' body' rounds')

namespace Simulation

variable {token : Token → Token → Prop} {scope : Type} {left right : scope → FrameId}
  {declares : scope → Prop} {rounds rounds' : Nat}
  {related : scope → {α : Type} → Run α → Run α → Prop} {name other : Token}

theorem map (h : Simulation token left right declares rounds rounds' related) {place : scope}
    {α β : Type} (change : α → β) {run run' : Run α} (hrun : related place run run') :
    related place (change <$> run) (change <$> run') := by
  rw [map_eq_pure_bind, map_eq_pure_bind]
  exact h.bind hrun fun value => h.pure place (change value)

/-! Operators and calls. -/

theorem applySign (h : Simulation token left right declares rounds rounds' related)
    (place : scope) (hoperator : token name other) (operand : Value) :
    related place (Run.ofExcept (operand.applySign name))
      (Run.ofExcept (operand.applySign other)) := by
  simp only [Value.applySign, h.kind_eq hoperator]
  split
  · cases operand with
    | number value => exact h.pure place _
    | nil | boolean | string | native => exact h.blame place hoperator _
  · exact h.pure place _

theorem sum (h : Simulation token left right declares rounds rounds' related) (place : scope)
    (hoperator : token name other) (value value' : Value) :
    related place (Run.ofExcept (Value.sum name value value'))
      (Run.ofExcept (Value.sum other value value')) := by
  unfold Value.sum
  split
  · exact h.pure place _
  · exact h.pure place _
  · exact h.blame place hoperator _

theorem applyNumbers (h : Simulation token left right declares rounds rounds' related)
    (place : scope) (hoperator : token name other) (number number' : Number) :
    related place (Run.ofExcept (Number.applyOperator name number number'))
      (Run.ofExcept (Number.applyOperator other number number')) := by
  simp only [Number.applyOperator, h.kind_eq hoperator]
  split
  case h_3 =>
    split
    · exact h.blame place hoperator _
    · exact h.pure place _
  case h_8 => exact h.fault place _
  all_goals exact h.pure place _

theorem applyOperator (h : Simulation token left right declares rounds rounds' related)
    (place : scope) (hoperator : token name other) (value value' : Value) :
    related place (Run.ofExcept (value.applyOperator name value'))
      (Run.ofExcept (value.applyOperator other value')) := by
  simp only [Value.applyOperator, h.kind_eq hoperator]
  split
  · exact h.sum place hoperator value value'
  · exact h.pure place _
  · exact h.pure place _
  · split
    · exact h.applyNumbers place hoperator _ _
    · exact h.blame place hoperator _

theorem decides_eq (h : Simulation token left right declares rounds rounds' related)
    (hoperator : token name other) (value : Value) : value.decides name = value.decides other := by
  simp only [Value.decides, h.kind_eq hoperator]

theorem call (h : Simulation token left right declares rounds rounds' related) (place : scope)
    (hclosing : token name other) (callee : Value) (arguments : List Value) :
    related place (callee.call name arguments) (callee.call other arguments) := by
  cases callee with
  | native function =>
      simp only [Value.call]
      split
      · next harity =>
          rw [Native.call, if_pos harity]
          cases function.builtin with
          | clock => exact h.map _ (h.readClock place)
          | lastArgument => exact h.pure place _
      · exact h.blame place hclosing _
  | nil | boolean | number | string => exact h.blame place hclosing _

/-! Expressions. -/

mutual

theorem evaluate (h : Simulation token left right declares rounds rounds' related)
    (place : scope) (value : Expr) {value' : Expr} (hvalue : Expr.Related token value value') :
    related place (value.evaluate (left place)) (value'.evaluate (right place)) := by
  match value with
  | .constant _ =>
      cases hvalue
      exact h.pure place _
  | .group inner =>
      cases hvalue with
      | group hinner =>
          rw [Expr.evaluate, Expr.evaluate]
          exact h.evaluate place inner hinner
  | .unary operator operand =>
      cases hvalue with
      | unary hoperator hoperand =>
          rw [Expr.evaluate, Expr.evaluate]
          exact h.bind (h.evaluate place operand hoperand) fun value =>
            h.applySign place hoperator value
  | .binary first operator second =>
      cases hvalue with
      | binary hfirst hoperator hsecond =>
          rw [Expr.evaluate, Expr.evaluate]
          apply h.bind (h.evaluate place first hfirst)
          intro value
          exact h.bind (h.evaluate place second hsecond) fun other =>
            h.applyOperator place hoperator value other
  | .logical first operator second =>
      cases hvalue with
      | logical hfirst hoperator hsecond =>
          rw [Expr.evaluate, Expr.evaluate]
          apply h.bind (h.evaluate place first hfirst)
          intro value
          rw [h.decides_eq hoperator]
          split
          · exact h.pure place _
          · exact h.evaluate place second hsecond
  | .var name =>
      cases hvalue with
      | var hname =>
          rw [Expr.evaluate, Expr.evaluate]
          exact h.lookup place hname
  | .assign name value =>
      cases hvalue with
      | assign hname hvalue =>
          rw [Expr.evaluate, Expr.evaluate]
          apply h.bind (h.evaluate place value hvalue)
          intro value
          exact h.bind (h.assign place value hname) fun _ => h.pure place value
  | .call callee closing arguments =>
      cases hvalue with
      | call hcallee hclosing harguments =>
          rw [Expr.evaluate, Expr.evaluate]
          apply h.bind (h.evaluate place callee hcallee)
          intro callee
          exact h.bind (h.evaluateRow place arguments harguments) fun arguments =>
            h.call place hclosing callee arguments

theorem evaluateRow (h : Simulation token left right declares rounds rounds' related)
    (place : scope) (row : List Expr) {row' : List Expr} (hrow : Expr.RelatedRow token row row') :
    related place (Expr.evaluateRow (left place) row) (Expr.evaluateRow (right place) row') := by
  match row with
  | [] =>
      cases hrow
      exact h.pure place _
  | first :: rest =>
      cases hrow with
      | cons hfirst hrest =>
          rw [Expr.evaluateRow, Expr.evaluateRow]
          apply h.bind (h.evaluate place first hfirst)
          intro _
          exact h.bind (h.evaluateRow place rest hrest) fun _ => h.pure place _

end

theorem holds (h : Simulation token left right declares rounds rounds' related) (place : scope)
    {condition condition' : Expr} (hcondition : Expr.Related token condition condition') :
    related place (condition.holds (left place)) (condition'.holds (right place)) :=
  h.bind (h.evaluate place condition hcondition) fun _ => h.pure place _

/-! Statements. -/

mutual

theorem execute (h : Simulation token left right declares rounds rounds' related)
    (place : scope) (statement : Stmt) {statement' : Stmt}
    (hstatement : Stmt.Related token statement statement')
    (hplace : declares place ∨ statement.declared = []) :
    related place (statement.execute rounds (left place))
      (statement'.execute rounds' (right place)) := by
  match statement with
  | .expression value =>
      cases hstatement with
      | expression hvalue =>
          rw [Stmt.execute, Stmt.execute]
          exact h.bind (h.evaluate place value hvalue) fun _ => h.pure place _
  | .print value =>
      cases hstatement with
      | print hvalue =>
          rw [Stmt.execute, Stmt.execute]
          exact h.bind (h.evaluate place value hvalue) fun value => h.writeLine place value
  | .declare name none =>
      cases hstatement with
      | declare hname =>
          rw [Stmt.execute, Stmt.execute]
          exact h.define (hplace.resolve_right (by simp [Stmt.declared])) _ hname
  | .declare name (some initial) =>
      cases hstatement with
      | declareAs hname hvalue =>
          rw [Stmt.execute, Stmt.execute]
          exact h.bind (h.evaluate place initial hvalue) fun value =>
            h.define (hplace.resolve_right (by simp [Stmt.declared])) value hname
  | .block body =>
      cases hstatement with
      | block hbody =>
          rw [Stmt.execute, Stmt.execute]
          exact h.inFrame place fun inner hinner =>
            h.executeRow inner body hbody (.inl hinner)
  | .conditional condition consequent none =>
      cases hstatement with
      | conditional hcondition hconsequent =>
          rw [Stmt.execute, Stmt.execute]
          apply h.bind (h.holds place hcondition)
          intro holds
          cases holds with
          | true => exact h.execute place consequent hconsequent hplace
          | false => exact h.pure place ()
  | .conditional condition consequent (some alternative) =>
      cases hstatement with
      | choice hcondition hconsequent halternative =>
          rw [Stmt.declared, List.append_eq_nil_iff] at hplace
          rw [Stmt.execute, Stmt.execute]
          apply h.bind (h.holds place hcondition)
          intro holds
          cases holds with
          | true => exact h.execute place consequent hconsequent (hplace.imp_right And.left)
          | false => exact h.execute place alternative halternative (hplace.imp_right And.right)
  | .loop condition body =>
      cases hstatement with
      | loop hcondition hbody =>
          rw [Stmt.execute, Stmt.execute]
          exact h.repeatWhile (h.holds place hcondition) (h.execute place body hbody hplace)

theorem executeRow (h : Simulation token left right declares rounds rounds' related)
    (place : scope) (row : List Stmt) {row' : List Stmt}
    (hrow : Stmt.RelatedRow token row row')
    (hplace : declares place ∨ ∀ statement ∈ row, statement.declared = []) :
    related place (Stmt.executeRow rounds (left place) row)
      (Stmt.executeRow rounds' (right place) row') := by
  match row with
  | [] =>
      cases hrow
      exact h.pure place ()
  | first :: rest =>
      cases hrow with
      | cons hfirst hrest =>
          rw [List.forall_mem_cons] at hplace
          rw [Stmt.executeRow, Stmt.executeRow]
          exact h.bind (h.execute place first hfirst (hplace.imp_right And.left)) fun _ =>
            h.executeRow place rest hrest (hplace.imp_right And.right)

end

end Simulation

end Treewalk.Run
