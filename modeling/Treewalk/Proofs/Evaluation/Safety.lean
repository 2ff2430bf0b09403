import Treewalk.Proofs.Grammar.Operators
import Treewalk.Proofs.Scoping.Outline

/-!
Safety. Where a frame is open with all frames outwards from it, a tree whose operators are of the
kinds of their nodes is executed without a fault, and the frame is still open afterwards.
-/

namespace Treewalk

/-- All frames on the way from the frame outwards are open. -/
def Store.Open (store : Store) (frame : FrameId) : Prop :=
  ∃ ids, store.Path frame ids

def Stop.Ordinary (reason : Stop) : Prop :=
  ∀ fault, reason ≠ .fault fault

/-- If there is no value, the reason is no fault. -/
def Stop.OrdinaryIn {α : Type} (result : Except Stop α) : Prop :=
  ∀ reason, result = .error reason → reason.Ordinary

section

variable {α : Type}

theorem Token.blame_ordinary (token : Token) (mistake : Mistake) :
    (token.blame mistake).Ordinary := by
  intro fault h
  contradiction

theorem Stop.OrdinaryIn.ok (value : α) : OrdinaryIn (.ok value) := by
  intro reason h
  contradiction

theorem Stop.OrdinaryIn.error {reason : Stop} (h : reason.Ordinary) :
    OrdinaryIn (.error reason : Except Stop α) := by
  intro other hother
  cases hother
  exact h

end

open Stop (OrdinaryIn)

/-! Nothing is asked of a store that it cannot answer. -/

namespace Store

variable {store later : Store} {frame : FrameId}

theorem Open.size_pos (h : store.Open frame) : 0 < store.frames.size := by
  obtain ⟨ids, hpath⟩ := h
  exact Nat.zero_lt_of_lt (hpath.lt_size frame hpath.mem_self)

theorem Open.grow (h : store.Open frame) {other : FrameId} {added : List Symbol}
    (hgrows : Grows other added store later) : later.Open frame := by
  obtain ⟨ids, hpath⟩ := h
  exact ⟨ids, hgrows.path hpath⟩

theorem Open.push (h : store.Open frame) : (store.push frame).2.Open store.frames.size := by
  obtain ⟨ids, hpath⟩ := h
  exact ⟨_, hpath.push_inner⟩

theorem Open.get_ordinary (h : store.Open frame) (name : Token) :
    OrdinaryIn (store.get frame name) := by
  obtain ⟨ids, hpath⟩ := h
  rw [get, resolve_of_path hpath]
  cases hhome : ids.find? (store.bindsAt name.lexeme) with
  | none => exact .error (name.blame_ordinary _)
  | some home =>
      have hbinds := List.find?_some hhome
      rw [bindsAt] at hbinds
      cases hfound : store.frames[home]? with
      | none => simp [hfound] at hbinds
      | some found =>
          rw [hfound, Option.any_some, Bindings.binds_eq_isSome, Option.isSome_iff_exists] at hbinds
          obtain ⟨value, hvalue⟩ := hbinds
          simp only [hfound, Option.bind_some, hvalue]
          exact .ok value

theorem Open.assign_ordinary (h : store.Open frame) (name : Token) (value : Value) :
    OrdinaryIn (store.assign frame name value) := by
  obtain ⟨ids, hpath⟩ := h
  rw [assign, resolve_of_path hpath]
  cases ids.find? (store.bindsAt name.lexeme) with
  | none => exact .error (name.blame_ordinary _)
  | some home => exact .ok _

theorem Open.define_ordinary (h : store.Open frame) (name : Token) (value : Value) :
    OrdinaryIn (store.define frame name value) := by
  obtain ⟨ids, hpath⟩ := h
  have hframe := Array.getElem?_eq_getElem (hpath.lt_size frame hpath.mem_self)
  rw [define, hframe]
  dsimp only
  split
  · exact .error (name.blame_ordinary _)
  · exact .ok _

end Store

namespace Run

variable {α β : Type} {frame : FrameId}

/-- A run has ended without a fault, and the frame is open. -/
inductive EndsSafely (frame : FrameId) : EStateM.Result Stop World α → Prop
  | ok {value : α} {world : World} : world.store.Open frame → EndsSafely frame (.ok value world)
  | error {reason : Stop} {world : World} : reason.Ordinary → world.store.Open frame →
      EndsSafely frame (.error reason world)

/-- Where the frame is open, the run ends without a fault and leaves the frame open. -/
def Safe (frame : FrameId) (run : Run α) : Prop :=
  ∀ world : World, world.store.Open frame → EndsSafely frame (run world)

theorem EndsSafely.of_grows {result : EStateM.Result Stop World α} {store : Store}
    {other : FrameId} {added : List Symbol} (hopen : store.Open frame)
    (hgrows : Store.Grows other added store (last result).store)
    (h : ∀ reason world, result = .error reason world → reason.Ordinary) :
    EndsSafely frame result := by
  cases result with
  | ok value world => exact .ok (hopen.grow hgrows)
  | error reason world => exact .error (h reason world rfl) (hopen.grow hgrows)

theorem Safe.pure (value : α) : Safe frame (Pure.pure value) :=
  fun _ hopen => .ok hopen

theorem Safe.stop {reason : Stop} (h : reason.Ordinary) : Safe frame (Run.stop reason : Run α) :=
  fun _ hopen => .error h hopen

theorem Safe.ofExcept {result : Except Stop α} (h : OrdinaryIn result) :
    Safe frame (Run.ofExcept result) := by
  cases result with
  | ok value => exact .pure value
  | error reason => exact .stop (h reason rfl)

theorem Safe.bind {first : Run α} {next : α → Run β} (hfirst : Safe frame first)
    (hnext : ∀ value, Safe frame (next value)) : Safe frame (first >>= next) := by
  intro world hopen
  have hends := hfirst world hopen
  cases hrun : first world with
  | ok value after =>
      rw [hrun] at hends
      rw [bind_eq_of_ok hrun]
      cases hends with
      | ok hafter => exact hnext value after hafter
  | error reason after =>
      rw [hrun] at hends
      rw [bind_eq_of_error hrun]
      cases hends with
      | error hreason hafter => exact .error hreason hafter

theorem Safe.map {run : Run α} (change : α → β) (h : Safe frame run) :
    Safe frame (change <$> run) := by
  rw [map_eq_pure_bind]
  exact h.bind fun value => .pure (change value)

theorem Safe.lookup (name : Token) : Safe frame (Run.lookup frame name) := by
  intro world hopen
  have hordinary := hopen.get_ordinary name
  rw [lookup_apply]
  cases hget : world.store.get frame name with
  | ok value => exact .ok hopen
  | error reason => exact .error (hordinary reason hget) hopen

theorem Safe.changeStore {change : Store → Except Stop Store}
    (hordinary : ∀ store : Store, store.Open frame → OrdinaryIn (change store))
    (hgrows : ∀ store later, change store = .ok later →
      ∃ added, Store.Grows frame added store later) : Safe frame (Run.changeStore change) := by
  intro world hopen
  rw [changeStore_apply]
  cases hchange : change world.store with
  | ok later =>
      obtain ⟨added, hadded⟩ := hgrows _ _ hchange
      exact .ok (hopen.grow hadded)
  | error reason => exact .error (hordinary _ hopen reason hchange) hopen

theorem Safe.assign (name : Token) (value : Value) : Safe frame (Run.assign frame name value) :=
  .changeStore (fun _ hopen => hopen.assign_ordinary name value)
    fun _ _ h => ⟨[], Store.grows_of_assign h frame⟩

theorem Safe.define (name : Token) (value : Value) : Safe frame (Run.define frame name value) :=
  .changeStore (fun _ hopen => hopen.define_ordinary name value)
    fun _ _ h => ⟨_, Store.grows_of_define h⟩

theorem Safe.writeLine (value : Value) : Safe frame (Run.writeLine value) := by
  intro world hopen
  rw [Run.writeLine]
  split
  · exact .ok hopen
  · exact .error (fun _ h => by contradiction) hopen

theorem Safe.readClock : Safe frame Run.readClock :=
  fun _ hopen => .ok hopen

/-- The frame that is released is the one that has been opened, and it is the innermost. -/
theorem Safe.inFrame {body : FrameId → Run Unit} {names : List Symbol}
    (hbody : ∀ inner, Safe inner (body inner)) (hgrows : ∀ inner, Grows inner names (body inner)) :
    Safe frame (Run.inFrame frame body) := by
  intro world hopen
  have hframes : Grows frame [] (Run.inFrame frame body) := .inFrame hgrows frame
  obtain ⟨added, -, hadded⟩ := hframes world hopen.size_pos
  -- The frame stays open because frames are only added to; the reason is that of the body.
  apply EndsSafely.of_grows hopen hadded
  intro reason after hstop
  have hends := hbody world.store.frames.size { world with store := (world.store.push frame).2 }
    hopen.push
  rw [inFrame_apply hopen.size_pos (hgrows _).keeps] at hstop
  generalize body _ _ = result at hends hstop
  cases hends with
  | ok _ => contradiction
  | error hordinary _ =>
      cases hstop
      exact hordinary

theorem Safe.repeatWhile {test : Run Bool} {body : Run Unit} (htest : Safe frame test)
    (hbody : Safe frame body) (rounds : Nat) : Safe frame (Run.repeatWhile test body rounds) := by
  induction rounds with
  | zero => exact .stop fun _ h => by contradiction
  | succ rounds ih =>
      apply htest.bind
      intro holds
      cases holds with
      | true => exact hbody.bind fun _ => ih
      | false => exact .pure ()

end Run

open Run

/-! Values and operators. -/

theorem Value.applySign_ordinary (operator : Token) (operand : Value) :
    OrdinaryIn (operand.applySign operator) := by
  unfold applySign
  split
  · split
    · exact .ok _
    · exact .error (operator.blame_ordinary _)
  · exact .ok _

theorem Value.sum_ordinary (operator : Token) (left right : Value) :
    OrdinaryIn (Value.sum operator left right) := by
  unfold sum
  split
  · exact .ok _
  · exact .ok _
  · exact .error (operator.blame_ordinary _)

/-- Only a token that is no operator is a fault, and equality and addition are not asked for
here. -/
theorem Number.applyOperator_ordinary {operator : Token}
    (h : operator.kind ∈ TokenKind.operators) (hplus : operator.kind ≠ .plus)
    (hequal : operator.kind ≠ .equalEqual) (hunequal : operator.kind ≠ .bangEqual)
    (left right : Number) : OrdinaryIn (left.applyOperator operator right) := by
  unfold applyOperator
  split
  · exact .ok _
  · exact .ok _
  · split
    · exact .error (operator.blame_ordinary _)
    · exact .ok _
  · exact .ok _
  · exact .ok _
  · exact .ok _
  · exact .ok _
  · simp_all [TokenKind.operators]

theorem Value.applyOperator_ordinary {operator : Token}
    (h : operator.kind ∈ TokenKind.operators) (left right : Value) :
    OrdinaryIn (left.applyOperator operator right) := by
  unfold applyOperator
  split
  · exact sum_ordinary operator left right
  · exact .ok _
  · exact .ok _
  · next hplus hequal hunequal =>
      split
      · exact Number.applyOperator_ordinary h hplus hequal hunequal _ _
      · exact .error (operator.blame_ordinary _)

theorem Value.call_safe {frame : FrameId} (callee : Value) (closing : Token)
    (arguments : List Value) : Safe frame (callee.call closing arguments) := by
  cases callee with
  | native function =>
      rw [Value.call]
      split
      · next hcount =>
          rw [Native.call, if_pos hcount]
          cases function.builtin with
          | clock => exact Safe.readClock.map _
          | lastArgument => exact .pure _
      · exact .stop (closing.blame_ordinary _)
  | nil | boolean | number | string => exact .stop (closing.blame_ordinary _)

theorem Expr.evaluateRow_safe {frame : FrameId} {row : List Expr}
    (h : ∀ value ∈ row, Safe frame (value.evaluate frame)) :
    Safe frame (Expr.evaluateRow frame row) := by
  induction row with
  | nil => exact .pure _
  | cons first rest ih =>
      rw [List.forall_mem_cons] at h
      rw [Expr.evaluateRow]
      exact h.1.bind fun _ => (ih h.2).bind fun _ => .pure _

theorem Expr.Operable.evaluate_safe {value : Expr} (h : value.Operable) (frame : FrameId) :
    Safe frame (value.evaluate frame) := by
  induction h with
  | constant _ => exact .pure _
  | group _ ih =>
      rw [Expr.evaluate]
      exact ih
  | unary _ _ ih =>
      rw [Expr.evaluate]
      exact ih.bind fun _ => .ofExcept (Value.applySign_ordinary _ _)
  | binary _ hoperator _ ihLeft ihRight =>
      rw [Expr.evaluate]
      exact ihLeft.bind fun _ => ihRight.bind fun _ =>
        .ofExcept (Value.applyOperator_ordinary hoperator _ _)
  | logical _ _ _ ihLeft ihRight =>
      rw [Expr.evaluate]
      apply ihLeft.bind
      intro _
      split
      · exact .pure _
      · exact ihRight
  | var name =>
      rw [Expr.evaluate]
      exact .lookup name
  | assign name _ ih =>
      rw [Expr.evaluate]
      exact ih.bind fun _ => (Safe.assign name _).bind fun _ => .pure _
  | call closing _ _ ihCallee ihArguments =>
      rw [Expr.evaluate]
      exact ihCallee.bind fun callee => (Expr.evaluateRow_safe ihArguments).bind fun arguments =>
        callee.call_safe closing arguments

theorem Expr.Operable.holds_safe {condition : Expr} (h : condition.Operable) (frame : FrameId) :
    Safe frame (condition.holds frame) :=
  (h.evaluate_safe frame).bind fun _ => .pure _

theorem Stmt.executeRow_safe {rounds : Nat} {frame : FrameId} {row : List Stmt}
    (h : ∀ statement ∈ row, Safe frame (statement.execute rounds frame)) :
    Safe frame (Stmt.executeRow rounds frame row) := by
  induction row with
  | nil => exact .pure _
  | cons first rest ih =>
      rw [List.forall_mem_cons] at h
      rw [Stmt.executeRow]
      exact h.1.bind fun _ => ih h.2

theorem Stmt.Operable.execute_safe {statement : Stmt} (h : statement.Operable) (rounds : Nat)
    (frame : FrameId) : Safe frame (statement.execute rounds frame) := by
  induction h generalizing frame with
  | expression hvalue =>
      rw [Stmt.execute]
      exact (hvalue.evaluate_safe frame).bind fun _ => .pure _
  | print hvalue =>
      rw [Stmt.execute]
      exact (hvalue.evaluate_safe frame).bind fun value => .writeLine value
  | declare name =>
      rw [Stmt.execute]
      exact .define name _
  | declareAs name hinitial =>
      rw [Stmt.execute]
      exact (hinitial.evaluate_safe frame).bind fun value => .define name value
  | @block body _ ih =>
      rw [Stmt.execute]
      exact .inFrame (fun inner => executeRow_safe fun statement hmem => ih statement hmem inner)
        fun inner => executeRow_grows rounds inner body
  | conditional hcondition _ ih =>
      rw [Stmt.execute]
      apply (hcondition.holds_safe frame).bind
      intro holds
      cases holds with
      | true => exact ih frame
      | false => exact .pure ()
  | choice hcondition _ _ ihConsequent ihAlternative =>
      rw [Stmt.execute]
      apply (hcondition.holds_safe frame).bind
      intro holds
      cases holds with
      | true => exact ihConsequent frame
      | false => exact ihAlternative frame
  | loop hcondition _ ih =>
      rw [Stmt.execute]
      exact .repeatWhile (hcondition.holds_safe frame) (ih frame) rounds

theorem Stmt.Operable.conclude_safe {last : Stmt} (h : last.Operable) (rounds : Nat)
    (echo : Bool) : Safe FrameId.global (last.conclude rounds echo) := by
  unfold Stmt.conclude
  split
  · cases h with
    | expression hvalue =>
        exact (hvalue.evaluate_safe FrameId.global).bind fun value => .writeLine value
  · exact h.execute_safe rounds FrameId.global

theorem Program.run_safe {program : Program} (h : ∀ statement ∈ program, statement.Operable)
    (rounds : Nat) (echo : Bool) : Safe FrameId.global (program.run rounds echo) := by
  match program with
  | [] => exact .pure ()
  | [last] =>
      rw [List.forall_mem_singleton] at h
      exact h.conclude_safe rounds echo
  | first :: second :: rest =>
      rw [List.forall_mem_cons] at h
      rw [Program.run]
      exact (h.1.execute_safe rounds FrameId.global).bind fun _ => Program.run_safe h.2 rounds echo

end Treewalk
