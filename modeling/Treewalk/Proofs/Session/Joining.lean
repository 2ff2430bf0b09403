import Treewalk.Proofs.Evaluation.Appending
import Treewalk.Proofs.Parsing.Joining
import Treewalk.Proofs.Session.Alike

/-!
Two texts may be run one after the other or as one: a text behind another, on a line of its own,
means the same as after a run of the other, but for the lines of its errors.
-/

namespace Treewalk

def Matching.raised (lines : Nat) {names others : Names} (hnames : names.spellings.Nodup)
    (hothers : others.spellings.Nodup) (htable : others.table = names.table) : Matching :=
  .entrywise (Symbol.Alike names others) (fun line other => other.toNat = line.toNat + lines)
    (fun h => h.spelling_eq) fun h h' => h.same_eq hnames hothers htable h'

section

variable {names others : Names} (hnames : names.spellings.Nodup)
  (hothers : others.spellings.Nodup) (htable : others.table = names.table) {lines : Nat}

theorem Token.Raised.matched {before before' : Names} {left right : Token}
    (h : Token.Raised lines before before' left right) (hleft : before.Extends names)
    (hright : before'.Extends others) :
    left.Matched (.raised lines hnames hothers htable) right where
  kind_eq := h.kind_eq
  symbol := .inl ⟨h.knows_left.mono hleft, h.knows_right.mono hright, h.spelling_eq⟩
  line := h.line_eq

end

/-! Runs of two texts. -/

/-- The failures of two runs, of which the second has its program further down. -/
inductive Failure.Raised (lines : Nat) : Failure → Failure → Prop
  | mistake {line other : Line} (cause : Mistake) : other.toNat = line.toNat + lines →
      Raised lines (.stopped (.error (.mistake line cause)))
        (.stopped (.error (.mistake other cause)))
  | outputClosed : Raised lines (.stopped (.error .outputClosed)) (.stopped (.error .outputClosed))
  | fault (fault : Fault) : Raised lines (.stopped (.fault fault)) (.stopped (.fault fault))
  | outOfRounds : Raised lines (.stopped .outOfRounds) (.stopped .outOfRounds)

inductive Failure.RaisedResult (lines : Nat) : Except Failure Unit → Except Failure Unit → Prop
  | ok : RaisedResult lines (.ok ()) (.ok ())
  | error {failure other : Failure} : failure.Raised lines other →
      RaisedResult lines (.error failure) (.error other)

theorem Stop.Matched.raised {names others : Names} {hnames : names.spellings.Nodup}
    {hothers : others.spellings.Nodup} {htable : others.table = names.table} {lines : Nat}
    {reason other : Stop} (h : reason.Matched (.raised lines hnames hothers htable) other) :
    Failure.Raised lines (.stopped reason) (.stopped other) := by
  cases h with
  | mistake cause hline => exact .mistake cause hline
  | outputClosed => exact .outputClosed
  | fault fault => exact .fault fault
  | outOfRounds => exact .outOfRounds

theorem Failure.Raised.eq {failure other : Failure} (h : failure.Raised 0 other) :
    failure = other := by
  cases h with
  | mistake cause hline => rw [UInt32.toNat_inj.mp hline]
  | outputClosed | fault | outOfRounds => rfl

namespace Interpreter

variable {interpreter : Interpreter} {source : String} {program : Program}

/-- What a run without echo does with a text that is accepted. -/
theorem run_eq (rounds : Nat) (hquiet : interpreter.interactive = false)
    (h : (interpreter.parse source).1 = .ok program) :
    interpreter.run rounds source =
      match Stmt.executeRow rounds FrameId.global program interpreter.world with
      | .ok () world => (.ok (), { (interpreter.parse source).2 with world })
      | .error reason world =>
          (.error (.stopped reason), { (interpreter.parse source).2 with world }) := by
  rw [run_of_parse_ok h, vocabulary_parse]
  have hprogram : program.run rounds interpreter.interactive interpreter.world =
      Stmt.executeRow rounds FrameId.global program interpreter.world := by
    rw [hquiet, Program.run_eq_executeRow]
  cases hresult : Stmt.executeRow rounds FrameId.global program interpreter.world with
  | ok _ world | error reason world =>
      rw [hresult] at hprogram
      simp only [execute, hprogram]

theorem run_appends (rounds : Nat) (hquiet : interpreter.interactive = false) (source : String) :
    interpreter.world.output.Extends (interpreter.run rounds source).2.world.output := by
  cases hparse : (interpreter.parse source).1 with
  | error failure =>
      rw [run_of_parse_error hparse, world_parse]
      exact .refl _
  | ok program =>
      have happends := Stmt.executeRow_appends rounds FrameId.global program interpreter.world
      rw [run_eq rounds hquiet hparse]
      generalize Stmt.executeRow _ _ _ _ = result at happends
      cases result <;> exact happends

theorem run_vocabulary (rounds : Nat) (source : String) :
    (interpreter.run rounds source).2.vocabulary.names = interpreter.namesAfter source ∧
      (interpreter.run rounds source).2.interactive = interpreter.interactive := by
  cases hparse : (interpreter.parse source).1 with
  | error failure =>
      rw [run_of_parse_error hparse, namesAfter]
      exact ⟨rfl, by rw [vocabulary_parse]⟩
  | ok program =>
      rw [run_of_parse_ok hparse, namesAfter, execute_eq]
      exact ⟨rfl, by rw [vocabulary_parse]⟩

theorem namesAfter_extends (interpreter : Interpreter) (source : String) :
    interpreter.vocabulary.names.Extends (interpreter.namesAfter source) :=
  interpreter.parse_extends source

/-- What is accepted before a run is accepted after it. -/
theorem Reachable.exists_parse (h : interpreter.Reachable)
    (hparse : (interpreter.parse source).1 = .ok program) (rounds : Nat) (other : String) :
    ∃ program', ((interpreter.run rounds other).2.parse source).1 = .ok program' := by
  rcases interpreter.parse_twins _ h.sound.valid (h.run rounds other).sound.valid source with
    ⟨-, program', -, hprogram, -⟩ | ⟨failure, hfailure, -⟩
  · exact ⟨program', hprogram⟩
  · rw [hparse] at hfailure
    contradiction

/-- The runs of two programs, and the run of a text that is read as both, further down. -/
theorem run_append {rounds : Nat} (h : interpreter.Reachable)
    (hquiet : interpreter.interactive = false) {a b joined : String}
    {first second first' second' : Program} {lines : Nat}
    (hfirst : (interpreter.parse a).1 = .ok first)
    (hsecond : ((interpreter.run rounds a).2.parse b).1 = .ok second)
    (hjoined : (interpreter.parse joined).1 = .ok (first' ++ second'))
    (hrow : Stmt.RelatedRow (Token.Raised 0 (interpreter.namesAfter a)
      (interpreter.namesAfter joined)) first first')
    (hrow' : Stmt.RelatedRow (Token.Raised lines ((interpreter.run rounds a).2.namesAfter b)
      (interpreter.namesAfter joined)) second second') :
    (∀ failure, (interpreter.run rounds a).1 = .error failure →
      (interpreter.run rounds joined).1 = .error failure ∧
        (interpreter.run rounds joined).2.LeavesLike (interpreter.run rounds a).2) ∧
    ((interpreter.run rounds a).1 = .ok () →
      Failure.RaisedResult lines ((interpreter.run rounds a).2.run rounds b).1
          (interpreter.run rounds joined).1 ∧
        (interpreter.run rounds joined).2.LeavesLike
          ((interpreter.run rounds a).2.run rounds b).2) := by
  obtain ⟨hvocabulary, hquiet'⟩ := interpreter.run_vocabulary rounds a
  have ha := run_eq rounds hquiet hfirst
  have hb := run_eq rounds (hquiet'.trans hquiet) hsecond
  have hwhole := run_eq rounds hquiet hjoined
  rw [Stmt.executeRow_append] at hwhole
  -- both readings of the second text match, whatever the symbols that came up in between
  have hbetween : (interpreter.namesAfter a).Extends
      ((interpreter.run rounds a).2.namesAfter b) :=
    hvocabulary ▸ namesAfter_extends _ b
  have hleft := (interpreter.namesAfter_extends a).trans hbetween
  have hright := interpreter.namesAfter_extends joined
  have hnames : ((interpreter.run rounds a).2.namesAfter b).spellings.Nodup :=
    ((h.run rounds a).sound.parse b).valid.nodup
  have hothers : (interpreter.namesAfter joined).spellings.Nodup :=
    (h.sound.parse _).valid.nodup
  have htable := hright.table_eq.trans hleft.table_eq.symm
  have hrow := hrow.imp fun _ _ htoken => htoken.matched hnames hothers htable hbetween (.refl _)
  have hrow' := hrow'.imp fun _ _ htoken =>
    htoken.matched hnames hothers htable (.refl _) (.refl _)
  have hruns := Stmt.executeRow_matches rounds FrameId.global first hrow
    (h.sound.matched hnames hothers htable hleft hright)
  generalize hresult : Stmt.executeRow rounds FrameId.global first interpreter.world = result
    at hruns ha
  generalize hresult' : Stmt.executeRow rounds FrameId.global first' interpreter.world = result'
    at hruns
  cases hruns with
  | error hreason hafter =>
      rw [Run.bind_eq_of_error hresult'] at hwhole
      rw [ha, hwhole]
      refine ⟨fun failure hfailure => ?_, fun hok => ?_⟩
      · cases hfailure
        exact ⟨congrArg Except.error hreason.raised.eq.symm,
          .of_matched hnames hothers htable hafter⟩
      · contradiction
  | @ok _ world other hafter =>
      rw [Run.bind_eq_of_ok hresult'] at hwhole
      have hruns' := Stmt.executeRow_matches rounds FrameId.global second hrow'
        (hafter.change_lines hnames hothers htable _)
      have hworld : (interpreter.run rounds a).2.world = world := by rw [ha]
      rw [hworld] at hb
      rw [hb, hwhole]
      refine ⟨fun failure hfailure => ?_, fun _ => ?_⟩
      · rw [ha] at hfailure
        contradiction
      · generalize Stmt.executeRow rounds FrameId.global second world = last at hruns' ⊢
        generalize Stmt.executeRow rounds FrameId.global second' other = last' at hruns' ⊢
        cases hruns' with
        | ok hlast => exact ⟨.ok, .of_matched hnames hothers htable hlast⟩
        | error hreason hlast =>
            exact ⟨.error hreason.raised, .of_matched hnames hothers htable hlast⟩

/-- Two texts that are accepted run as one as they run one after the other: what they write and
define is the same, and so is the error, but for its line if it is an error of the second. -/
theorem run_joined (h : interpreter.Reachable) (hquiet : interpreter.interactive = false)
    {a b : String} {first second : Program} (hfirst : (interpreter.parse a).1 = .ok first)
    (hsecond : (interpreter.parse b).1 = .ok second)
    (hlines : (a ++ "\n" ++ b).toList.count '\n' < Nat.pow 2 32 - 1) (rounds : Nat) :
    (∃ first' second', (interpreter.parse (a ++ "\n" ++ b)).1 = .ok (first' ++ second') ∧
      Stmt.RelatedRow (Token.Raised 0 (interpreter.namesAfter a)
        (interpreter.namesAfter (a ++ "\n" ++ b))) first first' ∧
      Stmt.RelatedRow (Token.Raised (a.toList.count '\n' + 1) (interpreter.namesAfter b)
        (interpreter.namesAfter (a ++ "\n" ++ b))) second second') ∧
    (∀ failure, (interpreter.run rounds a).1 = .error failure →
      (interpreter.run rounds (a ++ "\n" ++ b)).1 = .error failure ∧
        (interpreter.run rounds (a ++ "\n" ++ b)).2.LeavesLike (interpreter.run rounds a).2) ∧
    ((interpreter.run rounds a).1 = .ok () →
      Failure.RaisedResult (a.toList.count '\n' + 1) ((interpreter.run rounds a).2.run rounds b).1
          (interpreter.run rounds (a ++ "\n" ++ b)).1 ∧
        (interpreter.run rounds (a ++ "\n" ++ b)).2.LeavesLike
          ((interpreter.run rounds a).2.run rounds b).2) ∧
    ∃ bytes others, (interpreter.run rounds a).2.written = interpreter.written ++ bytes ∧
      ((interpreter.run rounds a).2.run rounds b).2.written =
        interpreter.written ++ bytes ++ others := by
  obtain ⟨first', second', hparse, hrelated⟩ := parse_joined h.sound.valid hfirst hsecond hlines
  obtain ⟨hrow, hrow'⟩ := hrelated _ h.sound.valid
  refine ⟨⟨first', second', hparse, hrow _ hfirst, hrow' _ hsecond⟩, ?_⟩
  rw [← and_assoc]
  constructor
  · obtain ⟨program, hprogram⟩ := h.exists_parse hsecond rounds a
    have hlater := (hrelated _ (h.run rounds a).sound.valid).2 _ hprogram
    exact run_append h hquiet hfirst hprogram hparse (hrow _ hfirst) hlater
  · obtain ⟨bytes, hbytes⟩ := run_appends rounds hquiet a
    have hquiet' := (interpreter.run_vocabulary rounds a).2
    obtain ⟨others, hothers⟩ := run_appends rounds (hquiet'.trans hquiet) b
    exact ⟨bytes, others, hbytes, hothers.trans (congrArg (· ++ others) hbytes)⟩

def quiet : Interpreter :=
  new 0 {} ⟨fun _ => .zero, 0⟩

theorem run_joined_undefined :
    quiet.Reachable ∧ quiet.interactive = false ∧
      (quiet.parse "nil;").1 = .ok [.expression (.constant .nil)] ∧
      (quiet.parse "x;").1 =
        .ok [.expression (.var ⟨.identifier, ⟨0, 17, "x"⟩, none, 1⟩)] ∧
      Failure.RaisedResult ("nil;".toList.count '\n' + 1) ((quiet.run 1 "nil;").2.run 1 "x;").1
          (quiet.run 1 ("nil;" ++ "\n" ++ "x;")).1 ∧
        (quiet.run 1 ("nil;" ++ "\n" ++ "x;")).2.LeavesLike
          ((quiet.run 1 "nil;").2.run 1 "x;").2 := by
  have hreachable : quiet.Reachable := .new 0 {} _
  have hfirst : (quiet.parse "nil;").1 = .ok [.expression (.constant .nil)] := by cbv
  have hsecond : (quiet.parse "x;").1 =
      .ok [.expression (.var ⟨.identifier, ⟨0, 17, "x"⟩, none, 1⟩)] := by cbv
  have hok : (quiet.run 1 "nil;").1 = .ok () := by cbv
  exact ⟨hreachable, rfl, hfirst, hsecond,
    (run_joined hreachable rfl hfirst hsecond (by decide) 1).2.2.1 hok⟩

end Interpreter

end Treewalk
