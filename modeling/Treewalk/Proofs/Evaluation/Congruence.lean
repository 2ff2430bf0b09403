import Treewalk.Proofs.Evaluation.Closure
import Treewalk.Proofs.Evaluation.Simulation

/-!
What the runs of two programs have in common whose tokens are related place by place. A relation of
runs that the steps of statements keep relates the runs of the programs as well.
-/

namespace Treewalk.Run

/-- Steps with related tokens are related, and so are runs that are put together from related
runs. -/
structure Congruence (token : Token → Token → Prop)
    (related : {α : Type} → Run α → Run α → Prop) : Prop where
  kind_eq {name other : Token} : token name other → name.kind = other.kind
  pure {α : Type} (value : α) : related (Pure.pure value : Run α) (Pure.pure value)
  fault {α : Type} (fault : Fault) :
    related (Run.stop (.fault fault) : Run α) (Run.stop (.fault fault))
  outOfRounds (α : Type) : related (Run.stop .outOfRounds : Run α) (Run.stop .outOfRounds)
  blame {α : Type} {name other : Token} : token name other → ∀ cause : Mistake,
    related (Run.stop (name.blame cause) : Run α) (Run.stop (other.blame cause))
  bind {α β : Type} {first first' : Run α} {next next' : α → Run β} : related first first' →
    (∀ value, related (next value) (next' value)) → related (first >>= next) (first' >>= next')
  lookup {name other : Token} (frame : FrameId) : token name other →
    related (Run.lookup frame name) (Run.lookup frame other)
  assign {name other : Token} (frame : FrameId) (value : Value) : token name other →
    related (Run.assign frame name value) (Run.assign frame other value)
  define {name other : Token} (frame : FrameId) (value : Value) : token name other →
    related (Run.define frame name value) (Run.define frame other value)
  readClock : related Run.readClock Run.readClock
  writeLine (value : Value) : related (Run.writeLine value) (Run.writeLine value)
  inFrame {body body' : FrameId → Run Unit} : (∀ inner, related (body inner) (body' inner)) →
    ∀ parent, related (Run.inFrame parent body) (Run.inFrame parent body')

/-- A property of the steps of statements does not depend on their tokens. -/
theorem Closed.congruence {property : {α : Type} → Run α → Prop} (h : Closed property)
    (hdefine : ∀ frame name value, property (Run.define frame name value))
    (hwriteLine : ∀ value, property (Run.writeLine value))
    (hinFrame : ∀ {body : FrameId → Run Unit}, (∀ inner, property (body inner)) →
      ∀ parent, property (Run.inFrame parent body)) :
    Congruence Eq fun left _ => property left where
  kind_eq := congrArg Token.kind
  pure := h.pure
  fault fault := h.stop (.fault fault)
  outOfRounds _ := h.stop .outOfRounds
  blame _ _ := h.stop _
  bind := h.bind
  lookup frame _ := h.lookup frame _
  assign frame value _ := h.assign frame _ value
  define frame value _ := hdefine frame _ value
  readClock := h.readClock
  writeLine := hwriteLine
  inFrame := hinFrame

namespace Congruence

variable {token : Token → Token → Prop} {related : {α : Type} → Run α → Run α → Prop}
  {name other : Token}

theorem repeatWhile (h : Congruence token related) {test test' : Run Bool} {body body' : Run Unit}
    (htest : related test test') (hbody : related body body') (rounds : Nat) :
    related (Run.repeatWhile test body rounds) (Run.repeatWhile test' body' rounds) := by
  induction rounds with
  | zero => exact h.outOfRounds Unit
  | succ rounds ih =>
      apply h.bind htest
      intro holds
      cases holds with
      | true => exact h.bind hbody fun _ => ih
      | false => exact h.pure ()

/-- The two runs are in the same frames and are allowed the same rounds. -/
theorem simulation (h : Congruence token related) (rounds : Nat) :
    Simulation token (id : FrameId → FrameId) id (fun _ => True) rounds rounds
      (fun _ => related) where
  kind_eq := h.kind_eq
  pure _ := h.pure
  fault _ := h.fault
  blame _ := h.blame
  bind := h.bind
  lookup := h.lookup
  assign := h.assign
  define _ := h.define _
  readClock _ := h.readClock
  writeLine _ := h.writeLine
  inFrame place _ _ hbody := h.inFrame (fun inner => hbody inner trivial) place
  repeatWhile htest hbody := h.repeatWhile htest hbody rounds

theorem evaluate (h : Congruence token related) (frame : FrameId) (value : Expr) {value' : Expr}
    (hvalue : Expr.Related token value value') :
    related (value.evaluate frame) (value'.evaluate frame) :=
  (h.simulation 0).evaluate frame value hvalue

theorem execute (h : Congruence token related) (rounds : Nat) (frame : FrameId) (statement : Stmt)
    {statement' : Stmt} (hstatement : Stmt.Related token statement statement') :
    related (statement.execute rounds frame) (statement'.execute rounds frame) :=
  (h.simulation rounds).execute frame statement hstatement (.inl trivial)

theorem executeRow (h : Congruence token related) (rounds : Nat) (frame : FrameId)
    (row : List Stmt) {row' : List Stmt} (hrow : Stmt.RelatedRow token row row') :
    related (Stmt.executeRow rounds frame row) (Stmt.executeRow rounds frame row') :=
  (h.simulation rounds).executeRow frame row hrow (.inl trivial)

theorem conclude (h : Congruence token related) (rounds : Nat) (echo : Bool) {last last' : Stmt}
    (hlast : Stmt.Related token last last') :
    related (last.conclude rounds echo) (last'.conclude rounds echo) := by
  have hexecute := h.execute rounds FrameId.global last hlast
  cases echo with
  | false => exact hexecute
  | true =>
      cases hlast with
      | @expression value _ hvalue =>
          exact h.bind (h.evaluate FrameId.global value hvalue) fun value => h.writeLine value
      | print | declare | declareAs | block | conditional | choice | loop => exact hexecute

theorem run (h : Congruence token related) (rounds : Nat) (echo : Bool)
    {program program' : Program} (hprogram : Stmt.RelatedRow token program program') :
    related (program.run rounds echo) (program'.run rounds echo) := by
  induction program generalizing program' with
  | nil =>
      cases hprogram
      exact h.pure ()
  | cons first rest ih =>
      cases hprogram with
      | cons hfirst hrest =>
          cases hrest with
          | nil => exact h.conclude rounds echo hfirst
          | cons hsecond hothers =>
              rw [Program.run, Program.run]
              exact h.bind (h.execute rounds FrameId.global first hfirst) fun _ =>
                ih (.cons hsecond hothers)

end Congruence

end Treewalk.Run
