import Treewalk.Proofs.Scoping.Tables
import Treewalk.Proofs.Session.Alike
import Treewalk.Session

/-!
One session twice, in which one of the interpreters has met different texts. The tables of its names
have grown apart, but no answer depends on the places of symbols in them.
-/

namespace Treewalk

/-- A table as it is in one session and in another. -/
structure Names.Pair where
  left : Names
  right : Names
  nodup_left : left.spellings.Nodup
  nodup_right : right.spellings.Nodup
  table_eq : right.table = left.table

namespace Names.Pair

structure Extends (pair later : Pair) : Prop where
  left : pair.left.Extends later.left
  right : pair.right.Extends later.right

def matching (pair : Pair) : Matching :=
  .alike Eq pair.nodup_left pair.nodup_right pair.table_eq

theorem Extends.refl (pair : Pair) : pair.Extends pair :=
  ⟨.refl _, .refl _⟩

theorem Extends.trans {pair between later : Pair} (h : pair.Extends between)
    (hlater : between.Extends later) : pair.Extends later :=
  ⟨h.left.trans hlater.left, h.right.trans hlater.right⟩

theorem Extends.alike {pair later : Pair} (h : pair.Extends later) {name other : Symbol}
    (hname : Symbol.Alike pair.left pair.right name other) :
    Symbol.Alike later.left later.right name other := by
  rcases hname with ⟨hknows, hknows', hspelling⟩ | ⟨heq, hforeign⟩
  · exact .inl ⟨hknows.mono h.left, hknows'.mono h.right, hspelling⟩
  · exact .inr ⟨heq, h.left.table_eq ▸ hforeign⟩

theorem Extends.world {pair later : Pair} (h : pair.Extends later) {left right : World}
    (hworld : left.Matched pair.matching right) : left.Matched later.matching right := by
  refine hworld.imp ?_
  intro bindings bindings' hbindings
  exact List.Forall₂.imp (fun _ _ hentry => ⟨h.alike hentry.1, hentry.2⟩) hbindings

end Names.Pair

/-! Programs. -/

/-- Tokens that differ in the places of their symbols only. -/
structure Token.Like (left right : Token) : Prop where
  kind_eq : left.kind = right.kind
  table_eq : left.lexeme.table = right.lexeme.table
  spelling_eq : left.lexeme.spelling = right.lexeme.spelling
  literal_eq : left.literal = right.literal
  line_eq : left.line = right.line

structure Token.Paired (pair : Names.Pair) (left right : Token) : Prop where
  like : left.Like right
  symbol : Symbol.Alike pair.left pair.right left.lexeme right.lexeme

def Program.Paired (pair : Names.Pair) (left right : Program) : Prop :=
  Stmt.RelatedRow (Token.Paired pair) left right

variable {pair later : Names.Pair}

theorem Program.Paired.grow {left right : Program} (h : left.Paired pair right)
    (hlater : pair.Extends later) : left.Paired later right :=
  h.imp fun _ _ htoken => ⟨htoken.like, hlater.alike htoken.symbol⟩

theorem Program.Paired.matched {left right : Program} (h : left.Paired pair right) :
    Stmt.RelatedRow (Token.Matched pair.matching) left right :=
  h.imp fun _ _ htoken => ⟨htoken.like.kind_eq, htoken.symbol, htoken.like.line_eq⟩

theorem Program.Paired.of_twins {left right : Program}
    (h : Stmt.RelatedRow (Token.Twin pair.left pair.right) left right) :
    left.Paired pair right := by
  refine h.imp fun name other htwin => ⟨⟨htwin.kind_eq, ?_, htwin.spelling_eq, htwin.literal_eq,
    htwin.line_eq⟩, .inl ⟨htwin.knows_left, htwin.knows_right, htwin.spelling_eq⟩⟩
  rw [htwin.knows_left.table_eq, htwin.knows_right.table_eq, pair.table_eq]

/-- A program of another table is the same in both sessions. -/
theorem Program.Of.paired {table : Nat} {program : Program} (h : program.Of table)
    (hforeign : table ≠ pair.left.table) : program.Paired pair program := by
  refine h.imp fun name other hname => ?_
  obtain ⟨rfl, rfl⟩ := hname
  exact ⟨⟨rfl, rfl, rfl, rfl, rfl⟩, .inr ⟨rfl, hforeign⟩⟩

/-! Interpreters. -/

namespace Interpreter

/-- The number of the table in which an interpreter keeps its names. -/
def table (interpreter : Interpreter) : Nat :=
  interpreter.vocabulary.names.table

@[simp] theorem table_parse (interpreter : Interpreter) (source : String) :
    (interpreter.parse source).2.table = interpreter.table :=
  (interpreter.parse_extends source).table_eq

@[simp] theorem table_execute (rounds : Nat) (interpreter : Interpreter) (program : Program) :
    (interpreter.execute rounds program).2.table = interpreter.table := by
  rw [execute_eq, table, table]

@[simp] theorem table_run (rounds : Nat) (interpreter : Interpreter) (source : String) :
    (interpreter.run rounds source).2.table = interpreter.table := by
  cases hparse : (interpreter.parse source).1 with
  | ok program => rw [run_of_parse_ok hparse, table_execute, table_parse]
  | error failure => rw [run_of_parse_error hparse, table_parse]

theorem vocabulary_new (table : Nat) (output : Output) (clock : Clock) :
    (new table output clock).vocabulary = ((Vocabulary.new table).symbol "clock").2 := by
  unfold new
  generalize (Vocabulary.new table).symbol "clock" = made
  rfl

theorem table_new (table : Nat) (output : Output) (clock : Clock) :
    (new table output clock).table = table := by
  obtain ⟨hreserved, -, -, -⟩ :=
    Vocabulary.reserve_spec keywordSpellings ⟨table, []⟩ List.nodup_nil
  have hextends := (Vocabulary.new table).symbol_extends "clock"
  rw [Interpreter.table, vocabulary_new]
  exact hextends.table_eq.trans hreserved.table_eq

/-- At first, an interpreter has no symbols of other tables. -/
theorem table_eq_of_new {table : Nat} {output : Output} {clock : Clock} {frame : Frame}
    (hframe : (new table output clock).world.store.frames[FrameId.global]? = some frame)
    {entry : Symbol × Value} (hentry : entry ∈ frame.bindings.entries) :
    entry.1.table = table := by
  have htable := table_new table output clock
  have hknows := (Vocabulary.new table).symbol_knows "clock"
  unfold Interpreter.table at htable
  unfold new at hframe htable
  generalize (Vocabulary.new table).symbol "clock" = made at hframe htable hknows
  obtain ⟨name, vocabulary⟩ := made
  cases hframe
  rw [List.mem_singleton.mp hentry]
  exact hknows.table_eq.trans htable

/-- One interpreter in two sessions. Either its own table is the one that has grown apart, or
nothing has happened to its vocabulary. -/
structure Paired (pair : Names.Pair) (left right : Interpreter) : Prop where
  valid_left : left.vocabulary.Valid
  valid_right : right.vocabulary.Valid
  vocabulary : (left.vocabulary.names = pair.left ∧ right.vocabulary.names = pair.right) ∨
    (left.vocabulary = right.vocabulary ∧ left.table ≠ pair.left.table)
  interactive_eq : left.interactive = right.interactive
  world : left.world.Matched pair.matching right.world

variable {left right : Interpreter}

theorem Paired.grow (h : left.Paired pair right) (hlater : pair.Extends later)
    (hforeign : left.table ≠ pair.left.table) : left.Paired later right where
  valid_left := h.valid_left
  valid_right := h.valid_right
  vocabulary := by
    rcases h.vocabulary with ⟨hleft, -⟩ | ⟨heq, -⟩
    · exact absurd (congrArg Names.table hleft) hforeign
    · exact .inr ⟨heq, hlater.left.table_eq ▸ hforeign⟩
  interactive_eq := h.interactive_eq
  world := hlater.world h.world

/-- Both sessions read related programs, or they refuse the text for the same reason. -/
inductive ReadsAlike (pair : Names.Pair) :
    Except Failure Program → Except Failure Program → Prop
  | read {program program' : Program} : program.Paired pair program' →
      ReadsAlike pair (.ok program) (.ok program')
  | refused (failure : Failure) : ReadsAlike pair (.error failure) (.error failure)

theorem parse_congr (h : left.vocabulary = right.vocabulary) (source : String) :
    (left.parse source).1 = (right.parse source).1 ∧
      (left.parse source).2.vocabulary = (right.parse source).2.vocabulary := by
  constructor
  · unfold parse
    rw [h]
    dsimp only
    split
    · split
      · rfl
      · split <;> rfl
    · rfl
  · rw [vocabulary_parse, vocabulary_parse, h]

theorem Paired.parse (h : left.Paired pair right) (source : String) :
    ∃ later : Names.Pair, pair.Extends later ∧ (left.table ≠ pair.left.table → later = pair) ∧
      (left.parse source).2.Paired later (right.parse source).2 ∧
      ReadsAlike later (left.parse source).1 (right.parse source).1 := by
  have hvalid := parse_valid h.valid_left source
  have hvalid' := parse_valid h.valid_right source
  have hextends := left.parse_extends source
  have hextends' := right.parse_extends source
  have hinteractive : (left.parse source).2.interactive = (right.parse source).2.interactive := by
    rw [vocabulary_parse, vocabulary_parse]
    exact h.interactive_eq
  rcases h.vocabulary with ⟨hleft, hright⟩ | ⟨heq, hforeign⟩
  · let later : Names.Pair :=
      { left := (left.parse source).2.vocabulary.names
        right := (right.parse source).2.vocabulary.names
        nodup_left := hvalid.nodup
        nodup_right := hvalid'.nodup
        table_eq := by rw [hextends.table_eq, hextends'.table_eq, hleft, hright, pair.table_eq] }
    have hlater : pair.Extends later := ⟨hleft ▸ hextends, hright ▸ hextends'⟩
    refine ⟨later, hlater, fun hforeign => absurd (congrArg Names.table hleft) hforeign,
      ⟨hvalid, hvalid', .inl ⟨rfl, rfl⟩, hinteractive, ?_⟩, ?_⟩
    · rw [world_parse, world_parse]
      exact hlater.world h.world
    · rcases left.parse_twins right h.valid_left h.valid_right source with
        ⟨program, program', hprogram, hprogram', hrelated⟩ | ⟨failure, hfailure, hfailure'⟩
      · rw [hprogram, hprogram']
        exact .read (.of_twins hrelated)
      · rw [hfailure, hfailure']
        exact .refused failure
  · obtain ⟨hresult, hvocabulary⟩ := parse_congr heq source
    refine ⟨pair, .refl pair, fun _ => rfl,
      ⟨hvalid, hvalid', .inr ⟨hvocabulary, ?_⟩, hinteractive, ?_⟩, ?_⟩
    · rwa [table_parse]
    · rw [world_parse, world_parse]
      exact h.world
    · rw [← hresult]
      cases hread : (left.parse source).1 with
      | ok program => exact .read ((parse_of h.valid_left hread).paired hforeign)
      | error failure => exact .refused failure

theorem Paired.execute (h : left.Paired pair right) (rounds : Nat) {program program' : Program}
    (hprogram : program.Paired pair program') :
    (left.execute rounds program).1 = (right.execute rounds program').1 ∧
      (left.execute rounds program).2.Paired pair (right.execute rounds program').2 := by
  have hends := Program.run_matches rounds left.interactive hprogram.matched h.world
  obtain ⟨vocabulary, world, interactive⟩ := left
  obtain ⟨vocabulary', world', interactive'⟩ := right
  obtain rfl : interactive = interactive' := h.interactive_eq
  unfold Interpreter.execute
  dsimp only at hends ⊢
  generalize program.run _ _ _ = result at hends
  generalize program'.run _ _ _ = result' at hends
  cases hends with
  | ok hworld => exact ⟨rfl, { h with world := hworld }⟩
  | error hreason hworld =>
      refine ⟨?_, { h with world := hworld }⟩
      cases hreason with
      | mistake cause hline =>
          cases hline
          rfl
      | outputClosed | fault | outOfRounds => rfl

theorem Paired.run (h : left.Paired pair right) (rounds : Nat) (source : String) :
    ∃ later : Names.Pair, pair.Extends later ∧ (left.table ≠ pair.left.table → later = pair) ∧
      (left.run rounds source).1 = (right.run rounds source).1 ∧
      (left.run rounds source).2.Paired later (right.run rounds source).2 := by
  obtain ⟨later, hlater, hforeign, hparsed, hreads⟩ := h.parse source
  refine ⟨later, hlater, hforeign, ?_⟩
  generalize hleft : (left.parse source).1 = result at hreads
  generalize hright : (right.parse source).1 = result' at hreads
  cases hreads with
  | read hprogram =>
      rw [run_of_parse_ok hleft, run_of_parse_ok hright]
      exact hparsed.execute rounds hprogram
  | refused failure =>
      rw [run_of_parse_error hleft, run_of_parse_error hright]
      exact ⟨rfl, hparsed⟩

end Interpreter

end Treewalk
