import Treewalk.Proofs.Evaluation.Congruence
import Treewalk.Proofs.Scoping.Outline

/-!
Runs only add to what has been written before.
-/

namespace Treewalk

namespace Output

def Extends (output later : Output) : Prop :=
  ∃ bytes, later.written = output.written ++ bytes

variable {output middle later : Output}

theorem Extends.refl (output : Output) : output.Extends output :=
  ⟨.empty, ByteArray.append_empty.symm⟩

theorem Extends.trans (hfirst : output.Extends middle) (hsecond : middle.Extends later) :
    output.Extends later := by
  obtain ⟨first, hfirst⟩ := hfirst
  obtain ⟨second, hsecond⟩ := hsecond
  exact ⟨first ++ second, by rw [hsecond, hfirst, ByteArray.append_assoc]⟩

theorem write_extends (output : Output) (bytes : ByteArray) :
    output.Extends (output.write bytes).2 := by
  unfold write
  split
  · exact ⟨_, rfl⟩
  · split <;> exact ⟨_, rfl⟩

end Output

namespace Run

variable {α β : Type}

def Appends (run : Run α) : Prop :=
  ∀ world : World, world.output.Extends (last (run world)).output

theorem Appends.of_eq {run : Run α} (h : ∀ world, (last (run world)).output = world.output) :
    Appends run := by
  intro world
  rw [h]
  exact .refl _

theorem Appends.pure (value : α) : Appends (Pure.pure value) :=
  .of_eq fun _ => rfl

theorem Appends.stop (reason : Stop) : Appends (Run.stop reason : Run α) :=
  .of_eq fun _ => rfl

theorem Appends.bind {first : Run α} {next : α → Run β} (hfirst : Appends first)
    (hnext : ∀ value, Appends (next value)) : Appends (first >>= next) := by
  intro world
  have hextends := hfirst world
  cases hrun : first world with
  | error reason after =>
      rw [hrun] at hextends
      rw [bind_eq_of_error hrun]
      exact hextends
  | ok value after =>
      rw [hrun] at hextends
      rw [bind_eq_of_ok hrun]
      exact hextends.trans (hnext value after)

theorem Appends.changeStore (change : Store → Except Stop Store) :
    Appends (Run.changeStore change) := by
  refine .of_eq fun world => ?_
  rw [changeStore_apply]
  cases change world.store <;> rfl

theorem Appends.lookup (frame : FrameId) (name : Token) : Appends (Run.lookup frame name) := by
  refine .of_eq fun world => ?_
  rw [lookup_apply]
  cases world.store.get frame name <;> rfl

theorem Appends.writeLine (value : Value) : Appends (Run.writeLine value) := by
  intro world
  have hwrite := world.output.write_extends (value.text ++ "\n").toUTF8
  unfold Run.writeLine Output.writeLine
  generalize world.output.write _ = result at hwrite
  obtain ⟨taken, output⟩ := result
  cases taken <;> exact hwrite

theorem Appends.readClock : Appends Run.readClock :=
  .of_eq fun _ => rfl

theorem Appends.inFrame {body : FrameId → Run Unit} (hbody : ∀ inner, Appends (body inner))
    (parent : FrameId) : Appends (Run.inFrame parent body) := by
  intro world
  have hrun := hbody world.store.frames.size
    { world with store := (world.store.push parent).2 }
  have hrelease (after : World) (h : world.output.Extends after.output) :
      world.output.Extends (last (Run.release world.store.frames.size after)).output :=
    h.trans (Appends.changeStore _ after)
  simp only [Run.inFrame, Store.push_fst]
  generalize body _ _ = result at hrun
  cases result with
  | ok value after => exact hrelease after hrun
  | error reason after =>
      have hreleased := hrelease after hrun
      dsimp only
      generalize Run.release _ _ = released at hreleased
      cases released <;> exact hreleased

theorem Appends.closed : Closed fun run => Appends run where
  pure := .pure
  stop := .stop
  bind := .bind
  lookup := .lookup
  assign _ _ _ := .changeStore _
  readClock := .readClock

theorem Appends.congruence : Congruence Eq fun left _ => Appends left :=
  Appends.closed.congruence (fun _ _ _ => .changeStore _) .writeLine .inFrame

end Run

open Run

theorem Stmt.execute_appends (rounds : Nat) (frame : FrameId) (statement : Stmt) :
    Appends (statement.execute rounds frame) :=
  Appends.congruence.execute rounds frame statement (.refl Eq.refl statement)

theorem Stmt.executeRow_appends (rounds : Nat) (frame : FrameId) (row : List Stmt) :
    Appends (Stmt.executeRow rounds frame row) :=
  Appends.congruence.executeRow rounds frame row (.refl Eq.refl row)

theorem Program.run_appends (rounds : Nat) (echo : Bool) (program : Program) :
    Appends (program.run rounds echo) :=
  Appends.congruence.run rounds echo (.refl Eq.refl program)

/-! A row of statements is executed part by part. -/

theorem Stmt.executeRow_append (rounds : Nat) (frame : FrameId) (first second : List Stmt) :
    Stmt.executeRow rounds frame (first ++ second) =
      Stmt.executeRow rounds frame first >>= fun _ => Stmt.executeRow rounds frame second := by
  induction first with
  | nil => simp [Stmt.executeRow]
  | cons statement first ih =>
      rw [List.cons_append, Stmt.executeRow, Stmt.executeRow, ih]
      simp

/-- Without echo, a program is no more than its statements in order. -/
theorem Program.run_eq_executeRow (rounds : Nat) (program : Program) :
    program.run rounds false = Stmt.executeRow rounds FrameId.global program := by
  match program with
  | [] => rfl
  | [last] =>
      rw [Program.run, Stmt.executeRow, Stmt.executeRow]
      exact (bind_pure _).symm
  | first :: second :: rest =>
      rw [Program.run, Stmt.executeRow, Program.run_eq_executeRow rounds (second :: rest)]

theorem Program.run_cons {rest : List Stmt} (hrest : rest ≠ []) (rounds : Nat) (echo : Bool)
    (first : Stmt) :
    Program.run rounds echo (first :: rest) =
      first.execute rounds FrameId.global >>= fun _ => Program.run rounds echo rest := by
  cases rest with
  | nil => contradiction
  | cons second rest => rfl

end Treewalk
