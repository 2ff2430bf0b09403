import Treewalk.Proofs.Evaluation.Prefixing
import Treewalk.Proofs.Scoping.Session
import Treewalk.Proofs.Scoping.Tables
import Treewalk.Proofs.Session.Reachable

/-!
Programs that different interpreters have read live in separate namespaces, even if one interpreter
executes them: what one of them does depends on its own variables only, and it leaves those of the
other alone.
-/

namespace Treewalk

/-! Between programs, only the global frame is open. -/

structure Store.Settled (store : Store) : Prop where
  arena : store.Arena
  size_eq : store.frames.size = 1

theorem Store.Settled.run {world : World} (h : world.store.Settled) (rounds : Nat) (echo : Bool)
    (program : Program) : (Run.last (program.run rounds echo world)).store.Settled := by
  obtain ⟨added, -, hgrows⟩ := program.run_grows rounds echo world h.arena.size_pos
  exact ⟨h.arena.congr hgrows.parent_eq (hgrows.pool h.arena.pool_empty),
    hgrows.size_eq.trans h.size_eq⟩

theorem Interpreter.Reachable.settled {interpreter : Interpreter} (h : interpreter.Reachable) :
    interpreter.world.store.Settled := by
  induction h with
  | new table output clock =>
      obtain ⟨name, native, hstore⟩ := Interpreter.new_store table output clock
      rw [hstore]
      exact ⟨Store.Arena.new.congr (Store.map_parent_modify _ _ _) Store.Arena.new.pool_empty,
        Store.size_frames_modify _ _ _⟩
  | listen _ _ ih => exact ih
  | parse source _ ih =>
      rw [Interpreter.world_parse]
      exact ih
  | execute rounds _ _ ih =>
      rw [Interpreter.execute_eq]
      exact ih.run _ _ _

/-- Stores show a program the same if they agree on the names of its table. -/
theorem Store.Settled.matched {table : Nat} {left right : Store} (hleft : left.Settled)
    (hright : right.Settled) (hagree : ∀ name : Symbol, name.table = table →
      left.valueAt name FrameId.global = right.valueAt name FrameId.global) :
    left.Matched (.within table) right where
  size_eq := hleft.size_eq.trans hright.size_eq.symm
  frames id := by
    by_cases hid : id = FrameId.global
    · subst hid
      obtain ⟨frame, hframe, hparent⟩ := hleft.arena.global
      obtain ⟨frame', hframe', hparent'⟩ := hright.arena.global
      simp only [valueAt, hframe, hframe', Option.bind_some] at hagree
      rw [hframe, hframe']
      exact .some ⟨hparent.trans hparent'.symm, hagree⟩
    · have hone : 1 ≤ id := Nat.one_le_iff_ne_zero.mpr hid
      rw [Array.getElem?_eq_none (hleft.size_eq ▸ hone),
        Array.getElem?_eq_none (hright.size_eq ▸ hone)]
      exact .none
  pool_left := hleft.arena.pool_empty
  pool_right := hright.arena.pool_empty

theorem Store.Matched.valueAt_eq {table : Nat} {left right : Store}
    (h : left.Matched (.within table) right) {name : Symbol} (hname : name.table = table)
    (id : FrameId) : left.valueAt name id = right.valueAt name id := by
  have hframe := h.frames id
  unfold valueAt
  generalize left.frames[id]? = found at hframe
  generalize right.frames[id]? = found' at hframe
  cases hframe with
  | none => rfl
  | some hframe => exact hframe.bindings name hname

/-! Programs and their tables. -/

/-- An interpreter with the table has read the program. -/
def Program.ReadWith (table : Nat) (program : Program) : Prop :=
  ∃ (interpreter : Interpreter) (source : String), interpreter.Reachable ∧
    interpreter.vocabulary.names.table = table ∧ (interpreter.parse source).1 = .ok program

theorem Program.ReadWith.of {table : Nat} {program : Program} (h : program.ReadWith table) :
    program.Of table := by
  obtain ⟨interpreter, source, hreachable, rfl, hparse⟩ := h
  exact Interpreter.parse_of hreachable.sound.valid hparse

/-! Executions. -/

/-- What an execution depends on beside the program and the variables: whether the value of an
expression that ends the program is printed, how many rounds its loops are allowed, and what the
clock shows meanwhile. -/
structure Occasion where
  interactive : Bool
  rounds : Nat
  clock : Clock

namespace Occasion

def execute (occasion : Occasion) (program : Program) (interpreter : Interpreter) :
    Except Failure Unit × Interpreter :=
  Interpreter.execute occasion.rounds { interpreter with
    interactive := occasion.interactive
    world := { interpreter.world with clock := occasion.clock } } program

/-- The result of an execution with the bytes that it writes. -/
def outcome (occasion : Occasion) (program : Program) (interpreter : Interpreter) :
    Except Failure Unit × ByteArray :=
  let (result, after) := occasion.execute program interpreter
  (result, after.written.extract interpreter.written.size after.written.size)

/-- The execution where nothing has been written before. -/
def runIn (occasion : Occasion) (program : Program) (store : Store) :
    EStateM.Result Stop World Unit :=
  program.run occasion.rounds occasion.interactive ⟨store, {}, occasion.clock⟩

end Occasion

/-- An interpreter between two programs, with output that takes everything. -/
structure Interpreter.Ready (interpreter : Interpreter) : Prop where
  settled : interpreter.world.store.Settled
  room_eq : interpreter.world.output.room = none

theorem Interpreter.globals_get? (interpreter : Interpreter) (name : Symbol) :
    interpreter.globals.get? name = interpreter.world.store.valueAt name FrameId.global := by
  rw [globals, Store.valueAt]
  cases interpreter.world.store.frames[FrameId.global]? <;> rfl

/-- The result of an execution whose run ends so. -/
def Run.verdict : EStateM.Result Stop World Unit → Except Failure Unit
  | .ok () _ => .ok ()
  | .error reason _ => .error (.stopped reason)

namespace Occasion

variable (occasion : Occasion) (program : Program) {interpreter : Interpreter}

theorem execute_eq (hroom : interpreter.world.output.room = none) :
    occasion.execute program interpreter =
      Interpreter.finish { interpreter with interactive := occasion.interactive }
        (Run.mapWorld (·.behind interpreter.written)
          (occasion.runIn program interpreter.world.store)) := by
  have hworld : { interpreter.world with clock := occasion.clock } =
      World.behind interpreter.written ⟨interpreter.world.store, {}, occasion.clock⟩ := by
    obtain ⟨vocabulary, ⟨store, ⟨written, room⟩, clock⟩, interactive⟩ := interpreter
    obtain rfl : room = none := hroom
    simp [World.behind, World.withOutput, Output.behind, Interpreter.written]
  rw [runIn, ← program.run_forgetful, ← hworld]
  rfl

theorem world_execute (hroom : interpreter.world.output.room = none) :
    (occasion.execute program interpreter).2.world =
      (Run.last (occasion.runIn program interpreter.world.store)).behind interpreter.written := by
  rw [execute_eq _ _ hroom, Interpreter.world_finish]
  cases occasion.runIn program interpreter.world.store <;> rfl

theorem outcome_eq (hroom : interpreter.world.output.room = none) :
    occasion.outcome program interpreter =
      (Run.verdict (occasion.runIn program interpreter.world.store),
        (Run.last (occasion.runIn program interpreter.world.store)).output.written) := by
  have hwritten := congrArg (·.output.written) (occasion.world_execute program hroom)
  refine Prod.ext ?_ ?_
  · simp only [outcome, execute_eq _ _ hroom]
    cases occasion.runIn program interpreter.world.store <;> rfl
  · simp only [outcome, Interpreter.written, hwritten, World.behind, World.output_withOutput,
      Output.behind]
    exact ByteArray.extract_append_eq_right rfl ByteArray.size_append

theorem ready_execute (h : interpreter.Ready) :
    (occasion.execute program interpreter).2.Ready := by
  have hsettled : (⟨interpreter.world.store, {}, occasion.clock⟩ : World).store.Settled :=
    h.settled
  have hroom := program.run_unlimited occasion.rounds occasion.interactive
    hsettled.arena.size_pos rfl
  constructor
  · rw [world_execute _ _ h.room_eq]
    exact hsettled.run _ _ _
  · rw [world_execute _ _ h.room_eq]
    exact hroom

variable {program} {table : Nat}

/-- The program changes no variable with a name of another table. -/
theorem get?_execute (hprogram : program.Of table) (h : interpreter.Ready) {name : Symbol}
    (hname : name.table ≠ table) :
    (occasion.execute program interpreter).2.globals.get? name =
      interpreter.globals.get? name := by
  rw [Interpreter.globals_get?, Interpreter.globals_get?, world_execute _ _ h.room_eq]
  exact (hprogram.run_spares _ _ _).valueAt_eq name hname _ h.settled.arena.size_pos

variable {left right : Interpreter}

/-- What the program does depends on the variables with names of its table. -/
theorem alike (hprogram : program.Of table) (hleft : left.Ready) (hright : right.Ready)
    (hagree : ∀ name : Symbol, name.table = table →
      left.globals.get? name = right.globals.get? name) :
    occasion.outcome program left = occasion.outcome program right ∧
      ∀ name : Symbol, name.table = table →
        (occasion.execute program left).2.globals.get? name =
          (occasion.execute program right).2.globals.get? name := by
  simp only [Interpreter.globals_get?] at hagree ⊢
  have hends := hprogram.run_matches occasion.rounds occasion.interactive
    (show World.Matched (.within table) ⟨left.world.store, {}, occasion.clock⟩
      ⟨right.world.store, {}, occasion.clock⟩ from
        ⟨hleft.settled.matched hright.settled hagree, rfl, rfl⟩)
  rw [outcome_eq _ _ hleft.room_eq, outcome_eq _ _ hright.room_eq,
    world_execute _ _ hleft.room_eq, world_execute _ _ hright.room_eq, runIn, runIn]
  generalize program.run _ _ ⟨left.world.store, _, _⟩ = result at hends ⊢
  generalize program.run _ _ ⟨right.world.store, _, _⟩ = result' at hends ⊢
  have hresult : Run.verdict result = Run.verdict result' ∧
      (Run.last result).Matched (.within table) (Run.last result') := by
    cases hends with
    | ok hworld => exact ⟨rfl, hworld⟩
    | error hreason hworld => exact ⟨congrArg (Except.error ∘ Failure.stopped) hreason.eq, hworld⟩
  obtain ⟨hverdict, hworld⟩ := hresult
  refine ⟨?_, fun name hname => hworld.store.valueAt_eq hname _⟩
  rw [hverdict, hworld.output_eq]

end Occasion

/-- Programs of different interpreters do not meet. In either order, each of them yields the same
result and writes the same bytes, and they leave the same values to all names. The guest does the
same in all states that agree on the names of its own table, and no name of the host's table gets
another value from it. -/
theorem Interpreter.namespaces_separate {host : Interpreter} (hhost : host.Reachable)
    (hroom : host.world.output.room = none) {program guest : Program} {foreign : Nat}
    (hprogram : program.ReadWith host.vocabulary.names.table) (hguest : guest.ReadWith foreign)
    (hforeign : foreign ≠ host.vocabulary.names.table) (occasion occasion' : Occasion) :
    occasion'.outcome guest (occasion.execute program host).2 = occasion'.outcome guest host ∧
      occasion.outcome program (occasion'.execute guest host).2 = occasion.outcome program host ∧
      (∀ name : Symbol,
        (occasion'.execute guest (occasion.execute program host).2).2.globals.get? name =
          (occasion.execute program (occasion'.execute guest host).2).2.globals.get? name) ∧
      (∀ left right : Interpreter, left.Reachable → right.Reachable →
        left.vocabulary.names.table = host.vocabulary.names.table →
        right.vocabulary.names.table = host.vocabulary.names.table →
        left.world.output.room = none → right.world.output.room = none →
        (∀ name : Symbol, name.table = foreign →
          left.globals.get? name = right.globals.get? name) →
        occasion'.outcome guest left = occasion'.outcome guest right) ∧
      ∀ name : Symbol, name.table = host.vocabulary.names.table →
        (occasion'.execute guest host).2.globals.get? name = host.globals.get? name := by
  have hready : host.Ready := ⟨hhost.settled, hroom⟩
  have hexecuted := occasion.ready_execute program hready
  have hvisited := occasion'.ready_execute guest hready
  -- What either of them leaves alone is what the other one sees.
  obtain ⟨houtcome, hvalues⟩ := occasion'.alike hguest.of hexecuted hready fun name hname =>
    occasion.get?_execute hprogram.of hready (hname ▸ hforeign)
  obtain ⟨houtcome', hvalues'⟩ := occasion.alike hprogram.of hvisited hready fun name hname =>
    occasion'.get?_execute hguest.of hready (hname ▸ hforeign.symm)
  refine ⟨houtcome, houtcome', fun name => ?_, ?_, ?_⟩
  · by_cases hname : name.table = foreign
    · rw [hvalues name hname,
        occasion.get?_execute hprogram.of hvisited (hname ▸ hforeign)]
    · rw [occasion'.get?_execute hguest.of hexecuted hname]
      by_cases hown : name.table = host.vocabulary.names.table
      · exact (hvalues' name hown).symm
      · rw [occasion.get?_execute hprogram.of hready hown,
          occasion.get?_execute hprogram.of hvisited hown,
          occasion'.get?_execute hguest.of hready hname]
  · intro left right hleft hright _ _ hroom hroom' hagree
    exact (occasion'.alike hguest.of ⟨hleft.settled, hroom⟩ ⟨hright.settled, hroom'⟩ hagree).1
  · exact fun name hname => occasion'.get?_execute hguest.of hready (hname ▸ hforeign.symm)

/-- The host's program takes its clock away. -/
def resetting : Program :=
  [.expression (.assign ⟨.identifier, ⟨0, 16, "clock"⟩, none, 1⟩ (.constant .nil))]

/-- The guest declares a variable of that name. -/
def redeclaring : Program :=
  [.declare ⟨.identifier, ⟨1, 16, "clock"⟩, none, 1⟩ none]

def once : Occasion :=
  ⟨false, 1, opened.clock⟩

theorem Interpreter.namespaces_separate_clock :
    resetting.ReadWith 0 ∧ redeclaring.ReadWith 1 ∧
      once.outcome redeclaring (once.execute resetting (new 0 {} opened.clock)).2 =
        once.outcome redeclaring (new 0 {} opened.clock) ∧
      (once.execute redeclaring (new 0 {} opened.clock)).2.globals.get? ⟨0, 16, "clock"⟩ =
        some (.native ⟨⟨0, 16, "clock"⟩, 0, .clock⟩) := by
  have hresetting : resetting.ReadWith 0 :=
    ⟨new 0 {} opened.clock, "clock = nil;", .new _ _ _, by cbv, by cbv⟩
  have hredeclaring : redeclaring.ReadWith 1 :=
    ⟨new 1 {} opened.clock, "var clock;", .new _ _ _, by cbv, by cbv⟩
  obtain ⟨houtcome, -, -, -, hkept⟩ := namespaces_separate (.new 0 {} opened.clock) rfl
    hresetting hredeclaring Nat.one_ne_zero once once
  exact ⟨hresetting, hredeclaring, houtcome, hkept _ rfl⟩

end Treewalk
