import Treewalk.Proofs.Parsing.Reading
import Treewalk.Proofs.Scoping.Balance

/-!
The states of an interpreter: between programs only the global frame is open, and the symbols of
its own table that name global variables have been made by that table.
-/

namespace Treewalk

/-- A symbol of the table has been made by it. Symbols of other tables may be met as well. -/
def Names.Admits (names : Names) (symbol : Symbol) : Prop :=
  symbol.table = names.table → names.Knows symbol

theorem Names.Admits.mono {names later : Names} {symbol : Symbol} (h : names.Admits symbol)
    (hextends : names.Extends later) : later.Admits symbol :=
  fun htable => (h (htable.trans hextends.table_eq)).mono hextends

theorem Stmt.Related.declared {related : Token → Token → Prop} {statement statement' : Stmt}
    (h : Stmt.Related related statement statement') :
    List.Forall₂ related statement.declared statement'.declared := by
  match statement with
  | .expression _ | .print _ | .block _ =>
      cases h
      exact .nil
  | .declare _ none | .declare _ (some _) =>
      cases h
      exact .cons ‹_› .nil
  | .conditional _ consequent none =>
      cases h with
      | conditional _ hconsequent => exact hconsequent.declared
  | .conditional _ consequent (some alternative) =>
      cases h with
      | choice _ hconsequent halternative =>
          exact List.rel_append hconsequent.declared halternative.declared
  | .loop _ body =>
      cases h with
      | loop _ hbody => exact hbody.declared

theorem Stmt.RelatedRow.declared {related : Token → Token → Prop} {row row' : List Stmt}
    (h : Stmt.RelatedRow related row row') :
    List.Forall₂ related (row.flatMap Stmt.declared) (row'.flatMap Stmt.declared) := by
  induction row generalizing row' with
  | nil =>
      cases h
      exact .nil
  | cons first rest ih =>
      cases h with
      | cons hfirst hrest => exact List.rel_append hfirst.declared (ih hrest)

namespace Interpreter

/-- The states that an interpreter gets into by reading texts and executing programs. The programs
may come from anywhere, but no symbol of the interpreter's own table is forged. -/
inductive Reachable : Interpreter → Prop
  | new (table : Nat) (output : Output) (clock : Clock) : Reachable (new table output clock)
  | listen {interpreter : Interpreter} (interactive : Bool) : Reachable interpreter →
      Reachable { interpreter with interactive }
  | parse {interpreter : Interpreter} (source : String) : Reachable interpreter →
      Reachable (interpreter.parse source).2
  | execute {interpreter : Interpreter} (rounds : Nat) {program : Program} :
      Reachable interpreter →
      (∀ name ∈ program.flatMap Stmt.declared, interpreter.vocabulary.names.Admits name.lexeme) →
      Reachable (interpreter.execute rounds program).2

structure Sound (interpreter : Interpreter) : Prop where
  valid : interpreter.vocabulary.Valid
  size_eq : interpreter.world.store.frames.size = 1
  pool_empty : ∀ bindings ∈ interpreter.world.store.pool, bindings = {}
  admits : ∀ names, interpreter.world.store.namesIn FrameId.global = some names →
    ∀ name ∈ names, interpreter.vocabulary.names.Admits name

variable {interpreter : Interpreter}

theorem new_sound (table : Nat) (output : Output) (clock : Clock) :
    (new table output clock).Sound := by
  have hvalid := (Vocabulary.new_valid table).symbol "clock"
  have hknows := (Vocabulary.new table).symbol_knows "clock"
  unfold new
  generalize (Vocabulary.new table).symbol "clock" = made at hvalid hknows
  obtain ⟨name, vocabulary⟩ := made
  refine ⟨hvalid, rfl, by simp [Store.defineGlobal, Store.modify, Store.new], ?_⟩
  intro names hnames other hother
  cases hnames
  obtain rfl : other = name := List.mem_singleton.mp hother
  exact fun _ => hknows

theorem Sound.parse (h : interpreter.Sound) (source : String) :
    (interpreter.parse source).2.Sound := by
  have hworld := interpreter.world_parse source
  refine ⟨parse_valid h.valid source, hworld ▸ h.size_eq, hworld ▸ h.pool_empty, ?_⟩
  intro names hnames name hname
  rw [hworld] at hnames
  exact (h.admits names hnames name hname).mono (interpreter.parse_extends source)

theorem execute_eq (rounds : Nat) (interpreter : Interpreter) (program : Program) :
    (interpreter.execute rounds program).2 = { interpreter with
      world := Run.last (program.run rounds interpreter.interactive interpreter.world) } := by
  unfold execute
  generalize program.run _ _ _ = result
  cases result <;> rfl

theorem Sound.execute (h : interpreter.Sound) (rounds : Nat) {program : Program}
    (hprogram : ∀ name ∈ program.flatMap Stmt.declared,
      interpreter.vocabulary.names.Admits name.lexeme) :
    (interpreter.execute rounds program).2.Sound := by
  obtain ⟨added, hadded, hgrows⟩ := program.run_grows rounds interpreter.interactive
    interpreter.world (h.size_eq ▸ Nat.one_pos)
  rw [execute_eq]
  refine ⟨h.valid, hgrows.size_eq.trans h.size_eq, hgrows.pool h.pool_empty, ?_⟩
  intro names hnames name hname
  have houtline := hgrows.outline_eq FrameId.global
  rw [Store.namesIn, houtline, Option.map_map, Option.map_eq_some_iff] at hnames
  obtain ⟨outline, hfound, rfl⟩ := hnames
  rw [Function.comp_apply, if_pos rfl, List.mem_append] at hname
  rcases hname with hold | hnew
  · exact h.admits outline.2 (by rw [Store.namesIn, hfound]; rfl) name hold
  · obtain ⟨token, htoken, rfl⟩ := List.mem_map.mp (hadded hnew)
    exact hprogram token htoken

theorem Reachable.sound (h : interpreter.Reachable) : interpreter.Sound := by
  induction h with
  | new table output clock => exact new_sound table output clock
  | listen _ _ ih => exact ⟨ih.valid, ih.size_eq, ih.pool_empty, ih.admits⟩
  | parse source _ ih => exact ih.parse source
  | execute rounds _ hprogram ih => exact ih.execute rounds hprogram

theorem parse_knows (h : interpreter.vocabulary.Valid) {source : String} {program : Program}
    (hparse : (interpreter.parse source).1 = .ok program) :
    ∀ name ∈ program.flatMap Stmt.declared,
      (interpreter.parse source).2.vocabulary.names.Knows name.lexeme := by
  rcases interpreter.parse_twins interpreter h h source with
    ⟨_, _, hok, -, hrelated⟩ | ⟨_, herror, -⟩
  · cases hok.symm.trans hparse
    exact Token.knows_of_twins hrelated.declared
  · cases herror.symm.trans hparse

/-- Reading a text and executing its program is among the steps of an interpreter. -/
theorem Reachable.run (h : interpreter.Reachable) (rounds : Nat) (source : String) :
    (interpreter.run rounds source).2.Reachable := by
  cases hparse : (interpreter.parse source).1 with
  | ok program =>
      rw [run_of_parse_ok hparse]
      exact (h.parse source).execute rounds fun name hname _ =>
        parse_knows h.sound.valid hparse name hname
  | error failure =>
      rw [run_of_parse_error hparse]
      exact h.parse source

end Interpreter

end Treewalk
