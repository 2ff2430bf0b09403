import Treewalk.Proofs.Evaluation.Limiting

/-!
Runs do not look at what has been written before them, and output without a limit stays so.
-/

namespace Treewalk

/-- The output as it is where some bytes have been written before. -/
def Output.behind (bytes : ByteArray) (output : Output) : Output :=
  ⟨bytes ++ output.written, output.room⟩

theorem Output.write_behind (output : Output) (earlier bytes : ByteArray) :
    (output.behind earlier).write bytes =
      ((output.write bytes).1, (output.write bytes).2.behind earlier) := by
  obtain ⟨written, room⟩ := output
  cases room with
  | none => simp [write, behind, ByteArray.append_assoc]
  | some room =>
      simp only [write, behind]
      split <;> simp [ByteArray.append_assoc]

def World.behind (bytes : ByteArray) (world : World) : World :=
  world.withOutput (world.output.behind bytes)

namespace Run

variable {α β : Type}

/-- The run does the same whatever has been written before it. -/
def Forgetful (run : Run α) : Prop :=
  ∀ (bytes : ByteArray) (world : World),
    run (world.behind bytes) = mapWorld (·.behind bytes) (run world)

theorem Silent.forgetful {run : Run α} (h : Silent run) : Forgetful run :=
  fun bytes => h.apply_changed (·.behind bytes)

theorem Forgetful.bind {first : Run α} {next : α → Run β} (hfirst : Forgetful first)
    (hnext : ∀ value, Forgetful (next value)) : Forgetful (first >>= next) := by
  intro bytes world
  have hother := hfirst bytes world
  cases hrun : first world with
  | ok value after =>
      rw [hrun] at hother
      rw [bind_eq_of_ok hrun, bind_eq_of_ok hother]
      exact hnext value bytes after
  | error reason after =>
      rw [hrun] at hother
      rw [bind_eq_of_error hrun, bind_eq_of_error hother]
      rfl

theorem Forgetful.writeLine (value : Value) : Forgetful (Run.writeLine value) := by
  intro bytes world
  have hwrite := world.output.write_behind bytes (value.text ++ "\n").toUTF8
  simp only [Run.writeLine, Output.writeLine, World.behind, World.output_withOutput, hwrite]
  generalize world.output.write _ = result
  obtain ⟨taken, output⟩ := result
  cases taken <;> rfl

theorem Forgetful.inFrame {body : FrameId → Run Unit} (hbody : ∀ inner, Forgetful (body inner))
    (parent : FrameId) : Forgetful (Run.inFrame parent body) := by
  intro bytes world
  have hrun : body (world.behind bytes).store.frames.size
      { world.behind bytes with store := ((world.behind bytes).store.push parent).2 } =
      mapWorld (·.behind bytes) (body world.store.frames.size
        { world with store := (world.store.push parent).2 }) :=
    hbody world.store.frames.size bytes { world with store := (world.store.push parent).2 }
  have hrelease (after : World) :
      Run.release (world.behind bytes).store.frames.size (after.behind bytes) =
        mapWorld (·.behind bytes) (Run.release world.store.frames.size after) :=
    (Silent.changeStore _).forgetful bytes after
  simp only [Run.inFrame, Store.push_fst, hrun]
  generalize body _ _ = result
  cases result with
  | ok _ after => exact hrelease after
  | error reason after =>
      simp only [mapWorld, hrelease after]
      cases Run.release world.store.frames.size after <;> rfl

theorem Forgetful.closed : Closed fun run => Forgetful run where
  pure value := (Silent.pure value).forgetful
  stop reason := (Silent.stop reason).forgetful
  bind := .bind
  lookup frame name := (Silent.lookup frame name).forgetful
  assign _ _ _ := (Silent.changeStore _).forgetful
  readClock := Silent.readClock.forgetful

theorem Forgetful.congruence : Congruence Eq fun left _ => Forgetful left :=
  Forgetful.closed.congruence (fun _ _ _ => (Silent.changeStore _).forgetful) .writeLine .inFrame

end Run

theorem Program.run_forgetful (rounds : Nat) (echo : Bool) (program : Program) :
    Run.Forgetful (program.run rounds echo) :=
  Run.Forgetful.congruence.run rounds echo (.refl Eq.refl program)

theorem Program.run_unlimited (rounds : Nat) (echo : Bool) (program : Program) {world : World}
    (hopen : 0 < world.store.frames.size) (hroom : world.output.room = none) :
    (Run.last (program.run rounds echo world)).output.room = none := by
  generalize hresult : program.run rounds echo world = result
  -- A limit that all that is written fits in does not cut the run.
  obtain ⟨capacity, hwritten, hall⟩ : ∃ capacity, world.output.written.size ≤ capacity ∧
      (Run.last result).output.written.size ≤ capacity :=
    ⟨_, Nat.le_max_left _ _, Nat.le_max_right _ _⟩
  have hcapped : Run.Capped capacity (program.run rounds echo) := program.run_capped rounds echo
  have hends := hcapped world hopen hroom hwritten
  rw [hresult] at hends
  generalize program.run rounds echo (world.capped capacity) = other at hends
  cases hends with
  | ok hroom _ | error hroom _ => exact hroom
  | cut hcut _ => exact absurd hall (Nat.not_le_of_lt hcut)

end Treewalk
