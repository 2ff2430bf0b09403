import Treewalk.Interpreter
import Treewalk.Proofs.Evaluation.Appending
import Treewalk.Proofs.Scoping.Balance

/-!
A limit of the output cuts what a run writes and changes nothing else. While everything fits, a
run does the same as without the limit. The first byte for which there is no room ends the run, and
what has been written then is what came before that byte.
-/

namespace Treewalk

namespace World

def withOutput (world : World) (output : Output) : World :=
  { world with output }

/-- The world as it would be if its output took no more than so many bytes over its life. -/
def capped (world : World) (capacity : Nat) : World :=
  world.withOutput ⟨world.output.written, some (capacity - world.output.written.size)⟩

variable (world : World) (output : Output)

@[simp] theorem output_withOutput : (world.withOutput output).output = output := rfl

@[simp] theorem store_withOutput : (world.withOutput output).store = world.store := rfl

@[simp] theorem withOutput_self : world.withOutput world.output = world := rfl

end World

theorem Output.extract_of_size_le {bytes : ByteArray} {size : Nat} (h : bytes.size ≤ size) :
    bytes.extract 0 size = bytes := by
  rw [← Nat.max_eq_left h]
  exact ByteArray.extract_zero_max_size

/-- What fits is written, and of what does not fit the first bytes. -/
theorem Output.write_capped (written bytes : ByteArray) {capacity : Nat}
    (hroom : written.size ≤ capacity) :
    Output.write ⟨written, some (capacity - written.size)⟩ bytes =
      if (written ++ bytes).size ≤ capacity then
        (true, ⟨written ++ bytes, some (capacity - (written ++ bytes).size)⟩)
      else (false, ⟨(written ++ bytes).extract 0 capacity, some 0⟩) := by
  have hsize : (written ++ bytes).size = written.size + bytes.size := ByteArray.size_append
  simp only [Output.write]
  by_cases hfits : bytes.size ≤ capacity - written.size
  · rw [if_pos hfits, if_pos (by omega), hsize, Nat.sub_add_eq]
  · rw [if_neg hfits, if_neg (by omega), ByteArray.extract_append, extract_of_size_le hroom,
      Nat.zero_sub]

namespace Run

variable {α β : Type}

/-! Runs that do not concern themselves with the output. -/

/-- The run does the same whatever the output is, and leaves the output alone. -/
def Silent (run : Run α) : Prop :=
  ∀ (world : World) (output : Output),
    run (world.withOutput output) = mapWorld (·.withOutput output) (run world)

theorem Silent.pure (value : α) : Silent (Pure.pure value) :=
  fun _ _ => rfl

theorem Silent.stop (reason : Stop) : Silent (Run.stop reason : Run α) :=
  fun _ _ => rfl

theorem Silent.bind {first : Run α} {next : α → Run β} (hfirst : Silent first)
    (hnext : ∀ value, Silent (next value)) : Silent (first >>= next) := by
  intro world output
  have hother := hfirst world output
  cases hrun : first world with
  | ok value after =>
      rw [hrun] at hother
      rw [bind_eq_of_ok hrun, bind_eq_of_ok hother]
      exact hnext value after output
  | error reason after =>
      rw [hrun] at hother
      rw [bind_eq_of_error hrun, bind_eq_of_error hother]
      rfl

theorem Silent.lookup (frame : FrameId) (name : Token) : Silent (Run.lookup frame name) := by
  intro world output
  rw [lookup_apply, lookup_apply, World.store_withOutput]
  cases world.store.get frame name <;> rfl

theorem Silent.changeStore (change : Store → Except Stop Store) :
    Silent (Run.changeStore change) := by
  intro world output
  rw [changeStore_apply, changeStore_apply, World.store_withOutput]
  cases change world.store <;> rfl

theorem Silent.readClock : Silent Run.readClock :=
  fun _ _ => rfl

theorem Silent.closed : Closed fun run => Silent run where
  pure := .pure
  stop := .stop
  bind := .bind
  lookup := .lookup
  assign _ _ _ := .changeStore _
  readClock := .readClock

theorem Silent.output_eq {run : Run α} (h : Silent run) (world : World) :
    (last (run world)).output = world.output := by
  have hsame := h world world.output
  rw [World.withOutput_self] at hsame
  rw [hsame]
  cases run world <;> rfl

/-- A silent run does the same after any change of the output. -/
theorem Silent.apply_changed {run : Run α} (h : Silent run) (change : Output → Output)
    (world : World) :
    run (world.withOutput (change world.output)) =
      mapWorld (fun after => after.withOutput (change after.output)) (run world) := by
  have houtput := h.output_eq world
  rw [h world]
  cases hrun : run world with
  | ok value after | error reason after =>
      rw [hrun] at houtput
      rw [mapWorld, mapWorld, show after.output = world.output from houtput]

/-! Runs under a limit. -/

/-- How a run ends without a limit, and how it ends with one: in the same way, or where the next
byte does not fit. -/
inductive EndsCapped (capacity : Nat) :
    EStateM.Result Stop World α → EStateM.Result Stop World α → Prop
  | ok {value : α} {world : World} : world.output.room = none →
      world.output.written.size ≤ capacity →
      EndsCapped capacity (.ok value world) (.ok value (world.capped capacity))
  | error {reason : Stop} {world : World} : world.output.room = none →
      world.output.written.size ≤ capacity →
      EndsCapped capacity (.error reason world) (.error reason (world.capped capacity))
  | cut {result : EStateM.Result Stop World α} {other : World} :
      capacity < (last result).output.written.size →
      other.output = ⟨(last result).output.written.extract 0 capacity, some 0⟩ →
      EndsCapped capacity result (.error (.error .outputClosed) other)

/-- A limit does nothing to the run but cut what it writes. -/
def Capped (capacity : Nat) (run : Run α) : Prop :=
  ∀ world : World, 0 < world.store.frames.size → world.output.room = none →
    world.output.written.size ≤ capacity →
    EndsCapped capacity (run world) (run (world.capped capacity))

variable {capacity : Nat}

/-- Under a limit, a silent run does the same and leaves the limit as it is. -/
theorem Silent.apply_capped {run : Run α} (h : Silent run) (world : World) (capacity : Nat) :
    run (world.capped capacity) = mapWorld (·.capped capacity) (run world) :=
  h.apply_changed (fun output => ⟨output.written, some (capacity - output.written.size)⟩) world

theorem EndsCapped.whole {result : EStateM.Result Stop World α}
    (hroom : (last result).output.room = none)
    (hsize : (last result).output.written.size ≤ capacity) :
    EndsCapped capacity result (mapWorld (·.capped capacity) result) := by
  cases result with
  | ok value world => exact .ok hroom hsize
  | error reason world => exact .error hroom hsize

theorem Silent.capped {run : Run α} (h : Silent run) : Capped capacity run := by
  intro world _ hroom hsize
  rw [← h.output_eq world] at hroom hsize
  rw [h.apply_capped]
  exact .whole hroom hsize

theorem Capped.writeLine (value : Value) : Capped capacity (Run.writeLine value) := by
  intro world _ hroom hsize
  obtain ⟨store, ⟨written, room⟩, clock⟩ := world
  obtain rfl : room = none := hroom
  generalize hbytes : (value.text ++ "\n").toUTF8 = bytes
  have hall : Output.write ⟨written, none⟩ bytes = (true, ⟨written ++ bytes, none⟩) := rfl
  have hwrite := Output.write_capped written bytes hsize
  simp only [Run.writeLine, Output.writeLine, World.capped, World.output_withOutput, hbytes, hall,
    hwrite]
  by_cases hfits : (written ++ bytes).size ≤ capacity
  · rw [if_pos hfits]
    exact .ok rfl hfits
  · rw [if_neg hfits]
    exact .cut (Nat.lt_of_not_le hfits) rfl

/-- Once the output has been cut, it does not matter what would have been written after it. -/
theorem EndsCapped.cut_of_extends {result : EStateM.Result Stop World α}
    {other : World} {reached : Output} (hcut : capacity < reached.written.size)
    (hother : other.output = ⟨reached.written.extract 0 capacity, some 0⟩)
    (hextends : reached.Extends (last result).output) :
    EndsCapped capacity result (.error (.error .outputClosed) other) := by
  obtain ⟨bytes, hbytes⟩ := hextends
  refine .cut ?_ ?_
  · rw [hbytes, ByteArray.size_append]
    omega
  · rw [hother, hbytes, ByteArray.extract_append, Nat.sub_eq_zero_of_le (Nat.le_of_lt hcut)]
    simp

theorem Capped.bind {first : Run α} {next : α → Run β} (hfirst : Capped capacity first)
    (hkeeps : Keeps first) (hnext : ∀ value, Capped capacity (next value))
    (happends : ∀ value, Appends (next value)) : Capped capacity (first >>= next) := by
  intro world hopen hroom hsize
  have hends := hfirst world hopen hroom hsize
  have hframes := hkeeps world hopen
  generalize hrun : first world = result at hends hframes
  generalize hother : first (world.capped capacity) = result' at hends
  cases hends with
  | @ok value after hroom hsize =>
      rw [bind_eq_of_ok hrun, bind_eq_of_ok hother]
      exact hnext value after (hframes.symm ▸ hopen) hroom hsize
  | error hroom hsize =>
      rw [bind_eq_of_error hrun, bind_eq_of_error hother]
      exact .error hroom hsize
  | cut hcut houtput =>
      -- Without the limit, the second run may go on to write.
      rw [bind_eq_of_error hother]
      cases result with
      | error reason after =>
          rw [bind_eq_of_error hrun]
          exact .cut hcut houtput
      | ok value after =>
          rw [bind_eq_of_ok hrun]
          exact .cut_of_extends hcut houtput (happends value after)

/-- Behind a silent run, nothing has been cut yet. -/
theorem Silent.bind_capped {first : Run α} {next : α → Run β} (hfirst : Silent first)
    (hkeeps : Keeps first) (hnext : ∀ value, Capped capacity (next value)) :
    Capped capacity (first >>= next) := by
  intro world hopen hroom hsize
  have hframes := hkeeps world hopen
  have hother := hfirst.apply_capped world capacity
  rw [← hfirst.output_eq world] at hroom hsize
  cases hrun : first world with
  | error reason after =>
      rw [hrun] at hroom hsize hother
      rw [bind_eq_of_error hrun, bind_eq_of_error hother]
      exact .error hroom hsize
  | ok value after =>
      rw [hrun] at hroom hsize hother hframes
      rw [bind_eq_of_ok hrun, bind_eq_of_ok hother]
      exact hnext value after (hframes.symm ▸ hopen) hroom hsize

theorem Capped.repeatWhile {test : Run Bool} {body : Run Unit} (htest : Silent test)
    (hkeeps : Keeps test) (hbody : Capped capacity body) (hkeeps' : Keeps body)
    (happends : Appends body) (rounds : Nat) :
    Capped capacity (Run.repeatWhile test body rounds) := by
  have htested : Appends test := .of_eq htest.output_eq
  induction rounds with
  | zero => exact (Silent.stop .outOfRounds).capped
  | succ rounds ih =>
      refine htest.bind_capped hkeeps fun holds => ?_
      cases holds with
      | true => exact hbody.bind hkeeps' (fun _ => ih) fun _ =>
          Appends.closed.repeatWhile htested happends rounds
      | false => exact (Silent.pure ()).capped

theorem EndsCapped.whole_or_cut {result other : EStateM.Result Stop World α}
    (h : EndsCapped capacity result other) :
    (last result).output.written.size ≤ capacity ∧
        other = mapWorld (·.capped capacity) result ∨
      capacity < (last result).output.written.size ∧ ∃ world,
        other = .error (.error .outputClosed) world ∧
        world.output = ⟨(last result).output.written.extract 0 capacity, some 0⟩ := by
  cases h with
  | ok _ hsize | error _ hsize => exact .inl ⟨hsize, rfl⟩
  | cut hcut houtput => exact .inr ⟨hcut, _, rfl, houtput⟩

theorem EndsCapped.leave {result other : EStateM.Result Stop World α}
    (h : EndsCapped capacity result other) :
    EndsCapped capacity (mapWorld Run.leave result) (mapWorld Run.leave other) := by
  cases h with
  | ok hroom hsize => exact .ok hroom hsize
  | error hroom hsize => exact .error hroom hsize
  | cut hcut houtput => cases result <;> exact .cut hcut houtput

theorem Capped.inFrame {body : FrameId → Run Unit} (hbody : ∀ inner, Capped capacity (body inner))
    (hkeeps : ∀ inner, Keeps (body inner)) (parent : FrameId) :
    Capped capacity (Run.inFrame parent body) := by
  intro world hopen hroom hsize
  have hends := hbody world.store.frames.size { world with store := (world.store.push parent).2 }
    (by simp) hroom hsize
  have hother : Run.inFrame parent body (world.capped capacity) = mapWorld Run.leave
      (body world.store.frames.size
        (({ world with store := (world.store.push parent).2 } : World).capped capacity)) :=
    inFrame_apply hopen (hkeeps _)
  rw [inFrame_apply hopen (hkeeps _), hother]
  exact hends.leave

end Run

/-! Expressions are silent, so only `print` and the echo of a program write. -/

open Run

theorem Expr.evaluate_silent (frame : FrameId) (value : Expr) :
    Silent (value.evaluate frame) :=
  Silent.closed.evaluate frame value

theorem Expr.holds_silent (frame : FrameId) (condition : Expr) :
    Silent (condition.holds frame) :=
  Silent.closed.holds frame condition

variable {capacity : Nat}

mutual

theorem Stmt.execute_capped (rounds : Nat) (frame : FrameId) (statement : Stmt) :
    Capped capacity (statement.execute rounds frame) := by
  match statement with
  | .expression value =>
      rw [Stmt.execute]
      exact ((value.evaluate_silent frame).bind fun _ => .pure _).capped
  | .print value =>
      rw [Stmt.execute]
      exact (value.evaluate_silent frame).bind_capped (value.evaluate_keeps frame) fun value =>
        .writeLine value
  | .declare name none =>
      rw [Stmt.execute]
      exact (Silent.changeStore _).capped
  | .declare name (some initial) =>
      rw [Stmt.execute]
      exact ((initial.evaluate_silent frame).bind fun _ => .changeStore _).capped
  | .block body =>
      rw [Stmt.execute]
      exact .inFrame (fun inner => Stmt.executeRow_capped rounds inner body)
        (fun inner => Stmt.executeRow_keeps rounds inner body) frame
  | .conditional condition consequent none =>
      rw [Stmt.execute]
      apply (condition.holds_silent frame).bind_capped (condition.holds_keeps frame)
      intro holds
      cases holds with
      | true => exact consequent.execute_capped rounds frame
      | false => exact (Silent.pure ()).capped
  | .conditional condition consequent (some alternative) =>
      rw [Stmt.execute]
      apply (condition.holds_silent frame).bind_capped (condition.holds_keeps frame)
      intro holds
      cases holds with
      | true => exact consequent.execute_capped rounds frame
      | false => exact alternative.execute_capped rounds frame
  | .loop condition body =>
      rw [Stmt.execute]
      exact .repeatWhile (condition.holds_silent frame) (condition.holds_keeps frame)
        (body.execute_capped rounds frame) (body.execute_keeps rounds frame)
        (body.execute_appends rounds frame) rounds

theorem Stmt.executeRow_capped (rounds : Nat) (frame : FrameId) (row : List Stmt) :
    Capped capacity (Stmt.executeRow rounds frame row) := by
  match row with
  | [] => exact (Silent.pure ()).capped
  | first :: rest =>
      rw [Stmt.executeRow]
      exact (first.execute_capped rounds frame).bind (first.execute_keeps rounds frame)
        (fun _ => Stmt.executeRow_capped rounds frame rest)
        fun _ => Stmt.executeRow_appends rounds frame rest

end

theorem Stmt.conclude_capped (rounds : Nat) (echo : Bool) (last : Stmt) :
    Capped capacity (last.conclude rounds echo) := by
  unfold Stmt.conclude
  split
  · next value =>
      exact (value.evaluate_silent FrameId.global).bind_capped
        (value.evaluate_keeps FrameId.global) fun value => .writeLine value
  · exact last.execute_capped rounds FrameId.global

theorem Program.run_capped (rounds : Nat) (echo : Bool) (program : Program) :
    Capped capacity (program.run rounds echo) := by
  match program with
  | [] => exact (Silent.pure ()).capped
  | [last] => exact last.conclude_capped rounds echo
  | first :: second :: rest =>
      rw [Program.run]
      exact (first.execute_capped rounds FrameId.global).bind
        (first.execute_keeps rounds FrameId.global)
        (fun _ => Program.run_capped rounds echo (second :: rest))
        fun _ => Program.run_appends rounds echo (second :: rest)

namespace Interpreter

/-- The interpreter as it would be if its output had so much room left. -/
def withRoom (interpreter : Interpreter) (room : Option Nat) : Interpreter :=
  { interpreter with world := interpreter.world.withOutput ⟨interpreter.written, room⟩ }

/-- What an execution of a program comes to when its run ends so. -/
def finish (interpreter : Interpreter) :
    EStateM.Result Stop World Unit → Except Failure Unit × Interpreter
  | .ok () world => (.ok (), { interpreter with world })
  | .error reason world => (.error (.stopped reason), { interpreter with world })

variable {interpreter : Interpreter}

theorem execute_withRoom (room : Option Nat) (rounds : Nat) (program : Program) :
    (interpreter.withRoom room).execute rounds program = interpreter.finish
      (program.run rounds interpreter.interactive (interpreter.withRoom room).world) :=
  rfl

theorem world_finish (result : EStateM.Result Stop World Unit) :
    (interpreter.finish result).2.world = last result := by
  cases result <;> rfl

theorem capped_withRoom (interpreter : Interpreter) (limit : Nat) :
    (interpreter.withRoom none).world.capped (interpreter.written.size + limit) =
      (interpreter.withRoom (some limit)).world := by
  simp [World.capped, World.withOutput, withRoom, written]

/-- With room for so many bytes more, a program writes the first that many bytes of what it writes
without a limit. If that is all of them, it does the same as without a limit; otherwise it ends
because the output takes no more, and its frames are released. -/
theorem execute_limited (h : interpreter.world.Reachable) (limit rounds : Nat)
    (program : Program) :
    ∃ bytes,
      ((interpreter.withRoom none).execute rounds program).2.written =
        interpreter.written ++ bytes ∧
      ((interpreter.withRoom (some limit)).execute rounds program).2.written =
        interpreter.written ++ bytes.extract 0 (min limit bytes.size) ∧
      (bytes.size ≤ limit →
        ((interpreter.withRoom (some limit)).execute rounds program).1 =
            ((interpreter.withRoom none).execute rounds program).1 ∧
          ((interpreter.withRoom (some limit)).execute rounds program).2 =
            ((interpreter.withRoom none).execute rounds program).2.withRoom
              (some (limit - bytes.size))) ∧
      (limit < bytes.size →
        ((interpreter.withRoom (some limit)).execute rounds program).1 =
            .error (.stopped (.error .outputClosed)) ∧
          ((interpreter.withRoom (some limit)).execute rounds program).2.world.store.frames.size =
            1) := by
  have hopen : 0 < interpreter.world.store.frames.size := h.size_eq ▸ Nat.one_pos
  have hframes := (program.run_grows rounds interpreter.interactive).keeps
    (interpreter.withRoom (some limit)).world hopen
  obtain ⟨bytes, hbytes⟩ := program.run_appends rounds interpreter.interactive
    (interpreter.withRoom none).world
  have hcapped : Capped (interpreter.written.size + limit)
      (program.run rounds interpreter.interactive) := program.run_capped _ _
  have hends := hcapped (interpreter.withRoom none).world hopen rfl (Nat.le_add_right _ _)
  simp only [execute_withRoom]
  rw [capped_withRoom] at hends
  generalize program.run rounds interpreter.interactive (interpreter.withRoom none).world =
    result at hbytes hends ⊢
  generalize program.run rounds interpreter.interactive
    (interpreter.withRoom (some limit)).world = result' at hframes hends ⊢
  change (last result).output.written = interpreter.written ++ bytes at hbytes
  have hsize : (last result).output.written.size = interpreter.written.size + bytes.size := by
    rw [hbytes, ByteArray.size_append]
  have hfree : (interpreter.finish result).2.written = interpreter.written ++ bytes := by
    rw [written, world_finish, hbytes]
  refine ⟨bytes, hfree, ?_⟩
  -- The capacity counts what had been written before the program, the limit does not.
  rcases hends.whole_or_cut with ⟨hfits, rfl⟩ | ⟨hcut, world, rfl, houtput⟩
  · have hfits : bytes.size ≤ limit := by omega
    have hroom : interpreter.written.size + limit - (interpreter.written.size + bytes.size) =
        limit - bytes.size := by omega
    refine ⟨?_, fun _ => ⟨?_, ?_⟩, fun hlarge => absurd hfits (Nat.not_le_of_lt hlarge)⟩
    · rw [Nat.min_eq_right hfits, ByteArray.extract_zero_size, ← hfree]
      cases result <;> rfl
    · cases result <;> rfl
    · rw [withRoom, ← hroom, ← hsize]
      cases result <;> rfl
  · have hlarge : limit < bytes.size := by omega
    refine ⟨?_, fun hfits => absurd hlarge (Nat.not_lt_of_le hfits), fun _ => ⟨rfl, ?_⟩⟩
    · rw [written, world_finish]
      change world.output.written = _
      rw [houtput, hbytes, ByteArray.extract_append,
        Output.extract_of_size_le (Nat.le_add_right _ _), Nat.zero_sub, Nat.add_sub_cancel_left,
        Nat.min_eq_left (Nat.le_of_lt hlarge)]
    · exact hframes.trans h.size_eq

def accented : Program :=
  [.block [.print (.constant (.string "é"))]]

/-- With room for one byte, the letter is cut in two. -/
theorem execute_limited_accented :
    (new 0 {} opened.clock).world.Reachable ∧ ∃ bytes, bytes = "é\n".toUTF8 ∧
      (((new 0 {} opened.clock).withRoom (some 1)).execute 1 accented).2.written =
        (new 0 {} opened.clock).written ++ bytes.extract 0 (min 1 bytes.size) ∧
      (((new 0 {} opened.clock).withRoom (some 1)).execute 1 accented).1 =
        .error (.stopped (.error .outputClosed)) := by
  have hreachable := World.Reachable.new 0 {} opened.clock
  obtain ⟨bytes, hfree, hcut, -, hclosed⟩ := execute_limited hreachable 1 1 accented
  have hbytes : (new 0 {} opened.clock).written ++ "é\n".toUTF8 =
      (new 0 {} opened.clock).written ++ bytes := by
    rw [← hfree]
    rfl
  obtain rfl := (ByteArray.append_right_inj _).mp hbytes
  exact ⟨hreachable, _, rfl, hcut, (hclosed (by decide)).1⟩

end Interpreter

end Treewalk
