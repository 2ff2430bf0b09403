import Treewalk.Proofs.Parsing.Reading
import Treewalk.Proofs.Scoping.Refinement

/-!
Sessions refine the documented meaning of programs: run by run, an interpreter yields the same
results, writes the same bytes and leaves the same global variables.
-/

namespace Treewalk

theorem Reference.read_eq (source : String) (world : Treewalk.World) :
    Reference.read source = (Interpreter.parse ⟨.new 0, world, false⟩ source).1 := by
  unfold Reference.read Interpreter.parse
  dsimp only
  split
  · generalize Parsed.ofTokens _ _ = result
    cases result with
    | error fault => rfl
    | ok parsed =>
        dsimp only
        cases parsed.program <;> rfl
  · rfl

/-- One text of a session: whether the value of an expression that ends it is printed, and how
many rounds its loops are allowed. -/
structure Entry where
  interactive : Bool
  rounds : Nat
  source : String

namespace Entry

def submit (entry : Entry) (interpreter : Interpreter) : Except Failure Unit × Interpreter :=
  { interpreter with interactive := entry.interactive }.run entry.rounds entry.source

def documented (entry : Entry) (world : Reference.World) :
    Except Failure Unit × Reference.World :=
  Reference.run entry.rounds entry.interactive entry.source world

end Entry

/-- The results of a session with the states in which they leave the interpreter. -/
def Interpreter.transcript (interpreter : Interpreter) :
    List Entry → List (Except Failure Unit × Interpreter)
  | [] => []
  | entry :: rest => entry.submit interpreter :: transcript (entry.submit interpreter).2 rest

def Reference.transcript (world : Reference.World) :
    List Entry → List (Except Failure Unit × Reference.World)
  | [] => []
  | entry :: rest => entry.documented world :: transcript (entry.documented world).2 rest

def Interpreter.globals (interpreter : Interpreter) : Bindings :=
  (interpreter.world.store.frames[FrameId.global]?).elim {} Frame.bindings

structure Interpreter.Agrees (outcome : Except Failure Unit × Interpreter)
    (documented : Except Failure Unit × Reference.World) : Prop where
  result_eq : outcome.1 = documented.1
  output_eq : outcome.2.world.output = documented.2.output
  clock_eq : outcome.2.world.clock = documented.2.clock
  globals : ∃ scope, documented.2.environment = [scope] ∧
    (outcome.2.globals.named.map Prod.fst).Nodup ∧
    ∀ name value, (name, value) ∈ outcome.2.globals.named ↔ scope[name]? = some value

/-- Between two runs of a session, an interpreter is a world of the documented meaning. -/
structure Interpreter.Reflects (interpreter : Interpreter) (mirror : Reference.World) :
    Prop where
  valid : interpreter.vocabulary.Valid
  world : interpreter.world.Reflects (.global interpreter.vocabulary.names) mirror

theorem World.Reflects.extend {names later : Names} {world : World} {mirror : Reference.World}
    (h : world.Reflects (.global names) mirror) (hextends : names.Extends later)
    (hnodup : later.spellings.Nodup) : world.Reflects (.global later) mirror where
  nodup := hnodup
  path := h.path
  shows := h.shows.mono hextends
  size_eq := h.size_eq
  pool := h.pool
  output_eq := h.output_eq
  clock_eq := h.clock_eq

namespace Interpreter

variable {interpreter : Interpreter} {mirror : Reference.World}

theorem new_reflects (table : Nat) (output : Output) (clock : Clock) :
    (new table output clock).Reflects (Reference.World.new
      ⟨((Vocabulary.new table).symbol "clock").1, 0, .clock⟩ output clock) := by
  have hvalid := (Vocabulary.new_valid table).symbol "clock"
  have hknows := (Vocabulary.new table).symbol_knows "clock"
  unfold new
  generalize (Vocabulary.new table).symbol "clock" = made at hvalid hknows
  obtain ⟨name, vocabulary⟩ := made
  refine ⟨hvalid, hvalid.nodup, .outermost rfl rfl, .cons ⟨_, rfl, ?_⟩ .nil, rfl, ?_, rfl, rfl⟩
  · exact (Bindings.Mirrors.empty _).add hknows (by simp) _
  · intro bindings hbindings
    contradiction

theorem Reflects.submit (h : interpreter.Reflects mirror) (entry : Entry) :
    (entry.submit interpreter).1 = (entry.documented mirror).1 ∧
      (entry.submit interpreter).2.Reflects (entry.documented mirror).2 := by
  obtain ⟨interactive, rounds, source⟩ := entry
  let asked : Interpreter := { interpreter with interactive }
  let fresh : Interpreter := ⟨.new 0, interpreter.world, false⟩
  let lexed := Lexed.ofText source interpreter.vocabulary {}
  have hvocabulary : (asked.parse source).2 = { asked with vocabulary := lexed.vocabulary } :=
    asked.vocabulary_parse source
  have hread : Reference.read source = (fresh.parse source).1 := Reference.read_eq source _
  have hvalid : lexed.vocabulary.Valid :=
    (Lexed.ofText_twins source h.valid h.valid {}).valid_left
  have hworld : interpreter.world.Reflects (.global lexed.vocabulary.names) mirror :=
    h.world.extend (Lexed.ofText_extends source _ {}) hvalid.nodup
  have hparse := asked.parse_twins fresh h.valid (Vocabulary.new_valid 0) source
  rw [Entry.submit, Entry.documented, Reference.run, hread]
  change (asked.run rounds source).1 = _ ∧ (asked.run rounds source).2.Reflects _
  rcases hparse with ⟨program, program', hprogram, hprogram', hrelated⟩ | ⟨failure, hleft, hright⟩
  · rw [hvocabulary] at hrelated
    have hasked : asked.parse source =
        (.ok program, { asked with vocabulary := lexed.vocabulary }) :=
      Prod.ext hprogram hvocabulary
    have hrun := Program.run_inStep rounds interactive hrelated hworld
    simp only [run, hasked, hprogram', execute]
    simp only [asked]
    generalize Program.run _ _ program _ = result at hrun ⊢
    generalize Reference.runProgram _ _ program' _ = result' at hrun ⊢
    cases hrun with
    | ok hafter => exact ⟨rfl, hvalid, hafter⟩
    | error hafter => exact ⟨rfl, hvalid, hafter⟩
  · have hasked : asked.parse source =
        (.error failure, { asked with vocabulary := lexed.vocabulary }) :=
      Prod.ext hleft hvocabulary
    simp only [run, hasked, hright]
    exact ⟨trivial, hvalid, hworld⟩

theorem Reflects.agrees (h : interpreter.Reflects mirror) (result : Except Failure Unit) :
    Agrees (result, interpreter) (result, mirror) := by
  have hshows := h.world.shows
  obtain ⟨environment, output, clock⟩ := mirror
  simp only [Viewpoint.global] at hshows
  refine ⟨rfl, h.world.output_eq, h.world.clock_eq, ?_⟩
  cases hshows with
  | @cons _ scope _ _ hfirst hrest =>
      cases hrest
      obtain ⟨frame, hframe, hmirrors⟩ := hfirst
      refine ⟨scope, rfl, ?_, ?_⟩
      · simp only [globals, hframe, Option.elim_some]
        exact hmirrors.nodup
      · intro name value
        simp only [globals, hframe, Option.elim_some]
        rw [← hmirrors.lookup_eq]
        exact Bindings.mem_named_iff hmirrors.nodup

theorem Reflects.transcript (h : interpreter.Reflects mirror) (entries : List Entry) :
    List.Forall₂ Agrees (interpreter.transcript entries) (Reference.transcript mirror entries) := by
  induction entries generalizing interpreter mirror with
  | nil => exact .nil
  | cons entry rest ih =>
      obtain ⟨hresult, hafter⟩ := h.submit entry
      refine .cons ?_ (ih hafter)
      have heq : entry.submit interpreter =
          ((entry.documented mirror).1, (entry.submit interpreter).2) := Prod.ext hresult rfl
      rw [heq]
      exact hafter.agrees _

/-- Run by run, a session yields the documented results, writes the documented bytes and leaves
the documented global variables. -/
theorem transcript_refines (table : Nat) (output : Output) (clock : Clock)
    (entries : List Entry) :
    List.Forall₂ Agrees ((new table output clock).transcript entries)
      (Reference.transcript (Reference.World.new
        ⟨((Vocabulary.new table).symbol "clock").1, 0, .clock⟩ output clock) entries) :=
  (new_reflects table output clock).transcript entries

end Interpreter

end Treewalk
