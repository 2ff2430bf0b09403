import Treewalk.Evaluation.Expression

/-!
The execution of statements and programs. Statements are executed by recursion on their trees;
only loops need a bound, so `rounds` limits the rounds of each loop, and a run that ends within a
bound ends in the same way within every greater one.
-/

namespace Treewalk

mutual

def Stmt.execute (rounds : Nat) (frame : FrameId) : Stmt → Run Unit
  | .expression value => do
      let _ ← value.evaluate frame
  | .print value => do Run.writeLine (← value.evaluate frame)
  | .declare name none => Run.define frame name .nil
  | .declare name (some initial) => do Run.define frame name (← initial.evaluate frame)
  | .block body => Run.inFrame frame fun inner => Stmt.executeRow rounds inner body
  | .conditional condition consequent none => do
      if ← condition.holds frame then consequent.execute rounds frame else pure ()
  | .conditional condition consequent (some alternative) => do
      if ← condition.holds frame then consequent.execute rounds frame
      else alternative.execute rounds frame
  | .loop condition body =>
      Run.repeatWhile (condition.holds frame) (body.execute rounds frame) rounds

/-- Statements in order; the first that stops ends the row. -/
def Stmt.executeRow (rounds : Nat) (frame : FrameId) : List Stmt → Run Unit
  | [] => pure ()
  | first :: rest => do
      first.execute rounds frame
      Stmt.executeRow rounds frame rest

end

/-- The last statement of a program: with `echo`, an expression is printed. -/
def Stmt.conclude (rounds : Nat) (echo : Bool) (last : Stmt) : Run Unit :=
  match echo, last with
  | true, .expression value => do Run.writeLine (← value.evaluate FrameId.global)
  | _, _ => last.execute rounds FrameId.global

/-- The statements of a program in the global frame. -/
def Program.run (rounds : Nat) (echo : Bool) : Program → Run Unit
  | [] => pure ()
  | [last] => last.conclude rounds echo
  | first :: second :: rest => do
      first.execute rounds FrameId.global
      Program.run rounds echo (second :: rest)

end Treewalk
