import Treewalk.Interpreter
import Treewalk.Proofs.Scoping.Outline

/-!
Scopes are balanced: however the execution of a statement ends, the frames that it opened have been
released, and the frames around it bind what they bound before.
-/

namespace Treewalk

namespace Store

/-- The stores that come up while programs run: statements are executed, whether or not they stop
early, in frames that are opened and released. -/
inductive Reachable : Store → Prop
  | new : Reachable .new
  | defineGlobal {store : Store} (name : Symbol) (value : Value) : Reachable store →
      Reachable (store.defineGlobal name value)
  | push {store : Store} {parent : FrameId} : Reachable store → parent < store.frames.size →
      Reachable (store.push parent).2
  | pop {store later : Store} {frame : FrameId} : Reachable store →
      store.pop frame = .ok later → Reachable later
  | evaluate {world : World} (frame : FrameId) (value : Expr) : Reachable world.store →
      Reachable (Run.last (value.evaluate frame world)).store
  | execute {world : World} (rounds : Nat) (frame : FrameId) (statement : Stmt) :
      Reachable world.store → Reachable (Run.last (statement.execute rounds frame world)).store

structure Sane (store : Store) : Prop where
  size_pos : 0 < store.frames.size
  pool_empty : ∀ bindings ∈ store.pool, bindings = {}

variable {store later : Store} {frame : FrameId}

theorem Grows.sane {added : List Symbol} (h : Grows frame added store later)
    (hsane : store.Sane) : later.Sane :=
  ⟨h.size_eq ▸ hsane.size_pos, h.pool hsane.pool_empty⟩

theorem Sane.pop (h : store.Sane) (hpop : store.pop frame = .ok later) : later.Sane := by
  obtain ⟨hsize, hinner, rfl⟩ := of_pop hpop
  refine ⟨?_, List.forall_mem_cons.mpr ⟨rfl, h.pool_empty⟩⟩
  rw [Array.size_pop, hsize]
  exact Nat.pos_of_ne_zero hinner

theorem Reachable.sane (h : store.Reachable) : store.Sane := by
  induction h with
  | new => exact ⟨Nat.one_pos, by simp [Store.new]⟩
  | defineGlobal _ _ _ ih => exact ⟨by simpa [Store.defineGlobal] using ih.size_pos, ih.pool_empty⟩
  | push _ _ ih =>
      exact ⟨by simp, fun bindings hmem => ih.pool_empty bindings (List.mem_of_mem_tail hmem)⟩
  | pop _ hpop ih => exact ih.pop hpop
  | evaluate frame value _ ih =>
      have hvalue : Run.Grows frame [] (value.evaluate frame) := value.evaluate_grows frame
      obtain ⟨_, -, hgrows⟩ := hvalue _ ih.size_pos
      exact hgrows.sane ih
  | execute rounds frame statement _ ih =>
      obtain ⟨_, -, hgrows⟩ := statement.execute_grows rounds frame _ ih.size_pos
      exact hgrows.sane ih

/-- The names that a frame binds. -/
def namesIn (store : Store) (id : FrameId) : Option (List Symbol) :=
  (store.outline id).map Prod.snd

/-- All frames of a store are as open as before, only one has got names, of the given ones, and
released bindings are empty. -/
structure Balanced (frame : FrameId) (names : List Symbol) (store later : Store) : Prop where
  size_eq : later.frames.size = store.frames.size
  parent_eq : ∀ id : FrameId,
    (later.frames[id]?).map Frame.parent = (store.frames[id]?).map Frame.parent
  names_eq : ∀ id, id ≠ frame → later.namesIn id = store.namesIn id
  added : ∃ added, added ⊆ names ∧ later.namesIn frame = (store.namesIn frame).map (· ++ added)
  pool_empty : ∀ bindings ∈ later.pool, bindings = {}

theorem Grows.balanced {added names : List Symbol} (h : Grows frame added store later)
    (hadded : added ⊆ names) (hsane : store.Sane) : Balanced frame names store later where
  size_eq := h.size_eq
  parent_eq := h.parent_eq
  names_eq id hid := congrArg (Option.map Prod.snd) (h.outline_of_ne hid)
  added := by
    refine ⟨added, hadded, ?_⟩
    rw [namesIn, namesIn, h.outline_eq, Option.map_map, Option.map_map]
    simp [Function.comp_def]
  pool_empty := h.pool hsane.pool_empty

end Store

/-- The worlds of an evaluator between programs. -/
inductive World.Reachable : World → Prop
  | new (table : Nat) (output : Output) (clock : Clock) :
      Reachable (Interpreter.new table output clock).world
  | run {world : World} (rounds : Nat) (echo : Bool) (program : Program) : Reachable world →
      Reachable (Run.last (program.run rounds echo world))

theorem Run.last_writeLine_store (value : Value) (world : World) :
    (last (writeLine value world)).store = world.store := by
  unfold writeLine
  split <;> rfl

theorem Stmt.conclude_grows (rounds : Nat) (echo : Bool) (last : Stmt) :
    Run.Grows FrameId.global (last.declared.map Token.lexeme) (last.conclude rounds echo) := by
  unfold Stmt.conclude
  split
  · next value => exact (value.evaluate_grows FrameId.global).bind fun value => .writeLine value
  · exact last.execute_grows rounds FrameId.global

theorem Program.run_grows (rounds : Nat) (echo : Bool) (program : Program) :
    Run.Grows FrameId.global ((program.flatMap Stmt.declared).map Token.lexeme)
      (program.run rounds echo) := by
  match program with
  | [] => exact .pure ()
  | [last] =>
      rw [Program.run, List.flatMap_singleton]
      exact last.conclude_grows rounds echo
  | first :: second :: rest =>
      rw [Program.run, List.flatMap_cons, List.map_append]
      exact ((first.execute_grows rounds FrameId.global).weaken (List.subset_append_left _ _)).bind
        fun _ => (Program.run_grows rounds echo (second :: rest)).weaken
          (List.subset_append_right _ _)

theorem Program.run_reachable (rounds : Nat) (echo : Bool) (program : Program) {world : World}
    (h : world.store.Reachable) : (Run.last (program.run rounds echo world)).store.Reachable := by
  match program with
  | [] => exact h
  | [last] =>
      rw [Program.run]
      unfold Stmt.conclude
      split
      · next value =>
          have hvalue := h.evaluate FrameId.global value
          cases hrun : value.evaluate FrameId.global world with
          | error reason after =>
              rw [hrun] at hvalue
              rw [Run.bind_eq_of_error hrun]
              exact hvalue
          | ok result after =>
              rw [hrun] at hvalue
              rw [Run.bind_eq_of_ok hrun, Run.last_writeLine_store]
              exact hvalue
      · exact h.execute rounds FrameId.global last
  | first :: second :: rest =>
      have hfirst := h.execute rounds FrameId.global first
      rw [Program.run]
      cases hrun : first.execute rounds FrameId.global world with
      | error reason after =>
          rw [hrun] at hfirst
          rw [Run.bind_eq_of_error hrun]
          exact hfirst
      | ok result after =>
          rw [hrun] at hfirst
          rw [Run.bind_eq_of_ok hrun]
          exact Program.run_reachable rounds echo (second :: rest) hfirst

theorem Interpreter.new_store (table : Nat) (output : Output) (clock : Clock) :
    ∃ name native, (new table output clock).world.store =
      Store.new.defineGlobal name (.native native) := by
  unfold new
  generalize (Vocabulary.new table).symbol "clock" = made
  exact ⟨_, _, rfl⟩

theorem World.Reachable.store_reachable {world : World} (h : world.Reachable) :
    world.store.Reachable := by
  induction h with
  | new table output clock =>
      obtain ⟨name, native, hstore⟩ := Interpreter.new_store table output clock
      rw [hstore]
      exact .defineGlobal name _ .new
  | run rounds echo program _ ih => exact program.run_reachable rounds echo ih

theorem World.Reachable.size_eq {world : World} (h : world.Reachable) :
    world.store.frames.size = 1 := by
  induction h with
  | new table output clock =>
      obtain ⟨name, native, hstore⟩ := Interpreter.new_store table output clock
      rw [hstore]
      exact Store.size_frames_modify _ _ _
  | run rounds echo program hworld ih =>
      obtain ⟨_, -, hgrows⟩ := program.run_grows rounds echo _ hworld.store_reachable.sane.size_pos
      exact hgrows.size_eq.trans ih

/-- However a statement ends, its scopes are balanced, and a program always ends with no more than
the global frame open. -/
theorem Stmt.execute_balanced :
    (∀ (world : World) (rounds : Nat) (frame : FrameId) (statement : Stmt),
      world.store.Reachable → frame < world.store.frames.size →
        Store.Balanced frame (statement.declared.map Token.lexeme) world.store
          (Run.last (statement.execute rounds frame world)).store) ∧
      ∀ (world : World) (rounds : Nat) (echo : Bool) (program : Program), world.Reachable →
        (Run.last (program.run rounds echo world)).store.frames.size = 1 := by
  constructor
  · intro world rounds frame statement hreachable _
    obtain ⟨added, hadded, hgrows⟩ :=
      statement.execute_grows rounds frame world hreachable.sane.size_pos
    exact hgrows.balanced hadded hreachable.sane
  · intro world rounds echo program hreachable
    exact (hreachable.run rounds echo program).size_eq

/-- A block that declares a variable and then reads another, which there is not. -/
def unwinding : Stmt :=
  .block [.declare ⟨.identifier, ⟨0, 17, "a"⟩, none, 1⟩ none,
    .expression (.var ⟨.identifier, ⟨0, 18, "b"⟩, none, 2⟩)]

/-- A world in which a frame is open within the global one. -/
def opened : World :=
  ⟨(Store.new.push FrameId.global).2, {}, ⟨fun _ => .zero, 0⟩⟩

theorem Stmt.execute_balanced_unwinding :
    (∃ after, unwinding.execute 1 1 opened =
        .error (.error (.mistake 2 (.undefinedVariable "b"))) after) ∧
      opened.store.Reachable ∧ 1 < opened.store.frames.size ∧
      Store.Balanced 1 [] opened.store (Run.last (unwinding.execute 1 1 opened)).store ∧
      (Interpreter.new 0 {} opened.clock).world.Reachable ∧
      (Run.last (Program.run 1 false [unwinding]
        (Interpreter.new 0 {} opened.clock).world)).store.frames.size = 1 := by
  have hreachable : opened.store.Reachable := .push .new Nat.one_pos
  have hworld := World.Reachable.new 0 {} opened.clock
  exact ⟨⟨_, rfl⟩, hreachable, Nat.one_lt_two,
    execute_balanced.1 opened 1 1 unwinding hreachable Nat.one_lt_two, hworld,
    execute_balanced.2 _ 1 false [unwinding] hworld⟩

end Treewalk
