import Treewalk.Proofs.Evaluation.Steps
import Treewalk.Proofs.Lexing.Twins
import Treewalk.Proofs.Scoping.Mirror
import Treewalk.Proofs.Tree.Related

/-!
Runs refine the documented meaning of programs: in a world that is, seen from a frame, a world of
the documented meaning, expressions and statements do what they should, and what they leave is
such a world again.
-/

namespace Treewalk

/-- From where a run sees the store: its frame, the path from there, and how many frames are open;
and the table that knows its names. -/
structure Viewpoint where
  names : Names
  frame : FrameId
  path : List FrameId
  size : Nat

def Viewpoint.inner (view : Viewpoint) : Viewpoint :=
  { view with frame := view.size, path := view.size :: view.path, size := view.size + 1 }

/-- A world, seen from a viewpoint, is a world of the documented meaning. -/
structure World.Reflects (view : Viewpoint) (world : World) (mirror : Reference.World) :
    Prop where
  nodup : view.names.spellings.Nodup
  path : world.store.Path view.frame view.path
  shows : world.store.Shows view.names view.path mirror.environment
  size_eq : world.store.frames.size = view.size
  pool : ∀ bindings ∈ world.store.pool, bindings = {}
  output_eq : world.output = mirror.output
  clock_eq : world.clock = mirror.clock

theorem World.Reflects.push {view : Viewpoint} {world : World} {mirror : Reference.World}
    (h : world.Reflects view mirror) :
    World.Reflects view.inner { world with store := (world.store.push view.frame).2 }
      { mirror with environment := ∅ :: mirror.environment } where
  nodup := h.nodup
  path := by
    have hpath := h.path.push_inner
    rwa [h.size_eq] at hpath
  shows := by
    have hshows := h.shows.push h.path h.pool
    rwa [h.size_eq] at hshows
  size_eq := (Store.size_frames_push _ _).trans (congrArg (· + 1) h.size_eq)
  pool bindings hbindings := h.pool bindings (List.mem_of_mem_tail hbindings)
  output_eq := h.output_eq
  clock_eq := h.clock_eq

theorem World.Reflects.lt_size {view : Viewpoint} {world : World} {mirror : Reference.World}
    (h : world.Reflects view mirror) : ∀ id ∈ view.path, id < view.size := by
  rw [← h.size_eq]
  exact h.path.lt_size

theorem World.Reflects.release {view : Viewpoint} {world after : World}
    {mirror mirrorAfter : Reference.World} (h : world.Reflects view mirror)
    (hafter : after.Reflects view.inner mirrorAfter) :
    ∃ last, Run.release view.size after = .ok () last ∧
      last.Reflects view (Reference.Run.leave mirrorAfter) := by
  have hsize : view.size ≠ 0 := Nat.ne_zero_of_lt (h.lt_size view.frame h.path.mem_self)
  obtain ⟨released, hrelease⟩ := Run.release_apply hafter.size_eq hsize
  have hkept : ∀ id ∈ view.path, after.store.frames.pop[id]? = after.store.frames[id]? := by
    intro id hid
    rw [Array.getElem?_pop, if_pos]
    rw [hafter.size_eq]
    exact h.lt_size id hid
  have hpath : after.store.Path view.frame view.path := by
    obtain ⟨outer, houter⟩ := h.path.exists_cons
    have hinner := hafter.path
    simp only [Viewpoint.inner, houter] at hinner ⊢
    exact hinner.tail
  have hshows := hafter.shows
  simp only [Viewpoint.inner] at hshows
  refine ⟨_, hrelease, h.nodup, ?_, ?_, ?_, ?_, hafter.output_eq, hafter.clock_eq⟩
  · exact hpath.congr fun id hid => congrArg _ (hkept id hid)
  · cases hmirror : mirrorAfter.environment with
    | nil => simp [hmirror, Store.Shows] at hshows
    | cons scope outer =>
        rw [hmirror] at hshows
        cases hshows with
        | cons _ hrest =>
            rw [Reference.Run.leave, hmirror, List.tail_cons]
            exact Store.Shows.congr hrest hkept
  · simp [hafter.size_eq, Viewpoint.inner]
  · intro bindings hbindings
    rcases List.mem_cons.mp hbindings with rfl | hbindings
    · rfl
    · exact hafter.pool bindings hbindings

namespace Run

variable {α β : Type} {view : Viewpoint} {others : Names}

inductive EndsAlike (view : Viewpoint) :
    EStateM.Result Stop World α → EStateM.Result Stop Reference.World α → Prop
  | ok {value : α} {world : World} {mirror : Reference.World} : world.Reflects view mirror →
      EndsAlike view (.ok value world) (.ok value mirror)
  | error {reason : Stop} {world : World} {mirror : Reference.World} :
      world.Reflects view mirror → EndsAlike view (.error reason world) (.error reason mirror)

/-- A run does what it should, seen from a viewpoint. -/
def InStep (view : Viewpoint) (run : Run α) (mirror : Reference.Run α) : Prop :=
  ∀ ⦃world : World⦄ ⦃seen : Reference.World⦄, world.Reflects view seen →
    EndsAlike view (run world) (mirror seen)

theorem InStep.pure (value : α) : InStep view (Pure.pure value) (Pure.pure value) :=
  fun _ _ h => .ok h

theorem InStep.bind {first : Run α} {first' : Reference.Run α} {next : α → Run β}
    {next' : α → Reference.Run β} (hfirst : InStep view first first')
    (hnext : ∀ value, InStep view (next value) (next' value)) :
    InStep view (first >>= next) (first' >>= next') := by
  intro world seen hworld
  have h := hfirst hworld
  simp only [Bind.bind, EStateM.bind]
  generalize first world = result at h
  generalize first' seen = result' at h
  cases h with
  | ok hafter => exact hnext _ hafter
  | error hafter => exact .error hafter

theorem InStep.map {run : Run α} {run' : Reference.Run α} (h : InStep view run run')
    (change : α → β) : InStep view (change <$> run) (change <$> run') := by
  intro world seen hworld
  have hresult := h hworld
  simp only [Functor.map, EStateM.map]
  generalize run world = result at hresult
  generalize run' seen = result' at hresult
  cases hresult with
  | ok hafter => exact .ok hafter
  | error hafter => exact .error hafter

theorem stop_inStep (reason : Stop) :
    InStep view (stop reason : Run α) (Reference.Run.stop reason) :=
  fun _ _ h => .error h

theorem ofExcept_inStep (result : Except Stop α) :
    InStep view (ofExcept result) (Reference.Run.ofExcept result) := by
  cases result with
  | ok value => exact .pure value
  | error reason => exact stop_inStep reason

theorem blame_eq {names : Names} {name name' : Token} (h : Token.Twin names others name name')
    (cause : Mistake) : name.blame cause = name'.blame cause := by
  rw [Token.blame, Token.blame, h.line_eq]

theorem lookup_inStep {name name' : Token} (h : Token.Twin view.names others name name') :
    InStep view (lookup view.frame name) (Reference.Run.lookup name') := by
  intro world seen hworld
  rw [lookup_apply, Store.get_of_shows hworld.path hworld.shows hworld.nodup h.knows_left,
    Reference.Run.lookup, h.spelling_eq, blame_eq h]
  cases seen.environment.lookup name'.lexeme.spelling with
  | some value => exact .ok hworld
  | none => exact .error hworld

theorem assign_inStep {name name' : Token} (h : Token.Twin view.names others name name')
    (value : Value) :
    InStep view (assign view.frame name value) (Reference.Run.assign name' value) := by
  intro world seen hworld
  rw [assign, changeStore_apply, Reference.Run.assign]
  rcases Store.assign_of_shows hworld.path hworld.shows hworld.nodup h.knows_left value with
    ⟨hassign, hnone⟩ | ⟨home, environment, hassign, hsome, hshows⟩
  · rw [h.spelling_eq] at hassign hnone
    rw [hassign, hnone, blame_eq h]
    exact .error hworld
  · rw [h.spelling_eq] at hsome
    rw [hassign, hsome]
    exact .ok { hworld with
      path := hworld.path.modify home (·.replace name.lexeme value)
      shows := hshows
      size_eq := (Store.size_frames_modify _ _ _).trans hworld.size_eq }

theorem define_inStep {name name' : Token} (h : Token.Twin view.names others name name')
    (value : Value) :
    InStep view (define view.frame name value) (Reference.Run.define name' value) := by
  intro world seen hworld
  rw [define, changeStore_apply, Reference.Run.define]
  rcases Store.define_of_shows hworld.path hworld.shows hworld.nodup h.knows_left value with
    ⟨hdefine, hnone⟩ | ⟨environment, hdefine, hsome, hshows⟩
  · rw [h.spelling_eq] at hdefine hnone
    rw [hdefine, hnone, blame_eq h]
    exact .error hworld
  · rw [h.spelling_eq] at hsome
    rw [hdefine, hsome]
    exact .ok { hworld with
      path := hworld.path.modify view.frame (·.add name.lexeme value)
      shows := hshows
      size_eq := (Store.size_frames_modify _ _ _).trans hworld.size_eq }

theorem writeLine_inStep (value : Value) :
    InStep view (writeLine value) (Reference.Run.writeLine value) := by
  intro world seen hworld
  rw [writeLine, Reference.Run.writeLine, hworld.output_eq]
  generalize seen.output.writeLine value.text = result
  obtain ⟨taken, output⟩ := result
  cases taken with
  | true => exact .ok { hworld with output_eq := rfl }
  | false => exact .error { hworld with output_eq := rfl }

theorem readClock_inStep : InStep view readClock Reference.Run.readClock := by
  intro world seen hworld
  rw [readClock, Reference.Run.readClock, hworld.clock_eq]
  exact .ok { hworld with clock_eq := rfl }

theorem inFrame_inStep {body : FrameId → Run Unit} {body' : Reference.Run Unit}
    (hbody : InStep view.inner (body view.size) body') :
    InStep view (inFrame view.frame body) (Reference.Run.inScope body') := by
  intro world seen hworld
  have hrun := hbody hworld.push
  rw [← hworld.size_eq] at hrun
  simp only [inFrame, Reference.Run.inScope, Store.push_fst]
  generalize body _ _ = result at hrun
  generalize body' _ = result' at hrun
  cases hrun with
  | ok hafter =>
      obtain ⟨last, hrelease, hlast⟩ := hworld.release hafter
      simp only [hworld.size_eq, hrelease]
      exact .ok hlast
  | error hafter =>
      obtain ⟨last, hrelease, hlast⟩ := hworld.release hafter
      simp only [hworld.size_eq, hrelease]
      exact .error hlast

theorem repeatWhile_inStep {test : Run Bool} {test' : Reference.Run Bool} {body : Run Unit}
    {body' : Reference.Run Unit} (htest : InStep view test test')
    (hbody : InStep view body body') (rounds : Nat) :
    InStep view (repeatWhile test body rounds) (Reference.Run.repeatWhile test' body' rounds) := by
  induction rounds with
  | zero => exact stop_inStep _
  | succ rounds ih =>
      apply htest.bind
      intro holds
      cases holds with
      | true => exact hbody.bind fun _ => ih
      | false => exact .pure ()

end Run

open Run

variable {view : Viewpoint} {others : Names}

theorem Value.call_inStep (callee : Value) {closing closing' : Token}
    (h : Token.Twin view.names others closing closing') (arguments : List Value) :
    InStep view (callee.call closing arguments)
      (Reference.Run.call callee closing' arguments) := by
  cases callee with
  | native function =>
      simp only [Value.call, Reference.Run.call, blame_eq h]
      split
      · next harity =>
          rw [Native.call, if_pos harity, Reference.Run.callNative]
          cases function.builtin with
          | clock => exact readClock_inStep.map _
          | lastArgument => exact .pure _
      · exact stop_inStep _
  | nil | boolean | number | string =>
      simp only [Value.call, Reference.Run.call, blame_eq h]
      exact stop_inStep _

theorem Value.applySign_eq {operator operator' : Token} {names : Names}
    (h : Token.Twin names others operator operator') (operand : Value) :
    operand.applySign operator = operand.applySign operator' := by
  simp only [Value.applySign, h.kind_eq, blame_eq h]

theorem Value.applyOperator_eq {operator operator' : Token} {names : Names}
    (h : Token.Twin names others operator operator') (left right : Value) :
    left.applyOperator operator right = left.applyOperator operator' right := by
  have hsum : Value.sum operator = Value.sum operator' := by
    funext left right
    unfold Value.sum
    simp only [blame_eq h]
  simp only [Value.applyOperator, Number.applyOperator, h.kind_eq, blame_eq h, hsum]

theorem Value.decides_eq {operator operator' : Token} {names : Names}
    (h : Token.Twin names others operator operator') (left : Value) :
    left.decides operator = left.decides operator' := by
  simp only [Value.decides, h.kind_eq]

mutual

theorem Expr.evaluate_inStep (value : Expr) {value' : Expr}
    (h : Expr.Related (Token.Twin view.names others) value value') :
    InStep view (value.evaluate view.frame) (Reference.evaluate value') := by
  match value with
  | .constant _ =>
      cases h
      exact .pure _
  | .group inner =>
      cases h with
      | group hinner =>
          rw [Expr.evaluate, Reference.evaluate]
          exact inner.evaluate_inStep hinner
  | .unary operator operand =>
      cases h with
      | unary hoperator hoperand =>
          rw [Expr.evaluate, Reference.evaluate]
          apply (operand.evaluate_inStep hoperand).bind
          intro value
          rw [Value.applySign_eq hoperator]
          exact ofExcept_inStep _
  | .binary left operator right =>
      cases h with
      | binary hleft hoperator hright =>
          rw [Expr.evaluate, Reference.evaluate]
          apply (left.evaluate_inStep hleft).bind
          intro _
          apply (right.evaluate_inStep hright).bind
          intro _
          rw [Value.applyOperator_eq hoperator]
          exact ofExcept_inStep _
  | .logical left operator right =>
      cases h with
      | logical hleft hoperator hright =>
          rw [Expr.evaluate, Reference.evaluate]
          apply (left.evaluate_inStep hleft).bind
          intro value
          rw [Value.decides_eq hoperator]
          split
          · exact .pure _
          · exact right.evaluate_inStep hright
  | .var name =>
      cases h with
      | var hname =>
          rw [Expr.evaluate, Reference.evaluate]
          exact lookup_inStep hname
  | .assign name value =>
      cases h with
      | assign hname hvalue =>
          rw [Expr.evaluate, Reference.evaluate]
          apply (value.evaluate_inStep hvalue).bind
          intro value
          exact (assign_inStep hname value).bind fun _ => .pure value
  | .call callee closing arguments =>
      cases h with
      | call hcallee hclosing harguments =>
          rw [Expr.evaluate, Reference.evaluate]
          apply (callee.evaluate_inStep hcallee).bind
          intro callee
          apply (Expr.evaluateRow_inStep arguments harguments).bind
          intro arguments
          exact callee.call_inStep hclosing arguments

theorem Expr.evaluateRow_inStep (row : List Expr) {row' : List Expr}
    (h : Expr.RelatedRow (Token.Twin view.names others) row row') :
    InStep view (Expr.evaluateRow view.frame row) (Reference.evaluateRow row') := by
  match row with
  | [] =>
      cases h
      exact .pure _
  | first :: rest =>
      cases h with
      | cons hfirst hrest =>
          rw [Expr.evaluateRow, Reference.evaluateRow]
          apply (first.evaluate_inStep hfirst).bind
          intro _
          exact (Expr.evaluateRow_inStep rest hrest).bind fun _ => .pure _

end

theorem Expr.holds_inStep {condition condition' : Expr}
    (h : Expr.Related (Token.Twin view.names others) condition condition') :
    InStep view (condition.holds view.frame) (Reference.holds condition') :=
  (condition.evaluate_inStep h).bind fun _ => .pure _

mutual

theorem Stmt.execute_inStep (rounds : Nat) (statement : Stmt) {statement' : Stmt}
    {view : Viewpoint} (h : Stmt.Related (Token.Twin view.names others) statement statement') :
    InStep view (statement.execute rounds view.frame) (Reference.execute rounds statement') := by
  match statement with
  | .expression value =>
      cases h with
      | expression hvalue =>
          rw [Stmt.execute, Reference.execute]
          exact (value.evaluate_inStep hvalue).bind fun _ => .pure _
  | .print value =>
      cases h with
      | print hvalue =>
          rw [Stmt.execute, Reference.execute]
          exact (value.evaluate_inStep hvalue).bind fun value => writeLine_inStep value
  | .declare name none =>
      cases h with
      | declare hname =>
          rw [Stmt.execute, Reference.execute]
          exact define_inStep hname _
  | .declare name (some initial) =>
      cases h with
      | declareAs hname hvalue =>
          rw [Stmt.execute, Reference.execute]
          exact (initial.evaluate_inStep hvalue).bind fun value => define_inStep hname value
  | .block body =>
      cases h with
      | block hbody =>
          rw [Stmt.execute, Reference.execute]
          have hrow : InStep view.inner (Stmt.executeRow rounds view.size body) _ :=
            Stmt.executeRow_inStep rounds body hbody
          exact inFrame_inStep hrow
  | .conditional condition consequent none =>
      cases h with
      | conditional hcondition hconsequent =>
          rw [Stmt.execute, Reference.execute]
          apply (Expr.holds_inStep hcondition).bind
          intro holds
          cases holds with
          | true => exact consequent.execute_inStep rounds hconsequent
          | false => exact .pure ()
  | .conditional condition consequent (some alternative) =>
      cases h with
      | choice hcondition hconsequent halternative =>
          rw [Stmt.execute, Reference.execute]
          apply (Expr.holds_inStep hcondition).bind
          intro holds
          cases holds with
          | true => exact consequent.execute_inStep rounds hconsequent
          | false => exact alternative.execute_inStep rounds halternative
  | .loop condition body =>
      cases h with
      | loop hcondition hbody =>
          rw [Stmt.execute, Reference.execute]
          exact repeatWhile_inStep (Expr.holds_inStep hcondition)
            (body.execute_inStep rounds hbody) rounds

theorem Stmt.executeRow_inStep (rounds : Nat) (row : List Stmt) {row' : List Stmt}
    {view : Viewpoint} (h : Stmt.RelatedRow (Token.Twin view.names others) row row') :
    InStep view (Stmt.executeRow rounds view.frame row) (Reference.executeRow rounds row') := by
  match row with
  | [] =>
      cases h
      exact .pure ()
  | first :: rest =>
      cases h with
      | cons hfirst hrest =>
          rw [Stmt.executeRow, Reference.executeRow]
          apply (first.execute_inStep rounds hfirst).bind
          intro _
          exact Stmt.executeRow_inStep rounds rest hrest

end

def Viewpoint.global (names : Names) : Viewpoint :=
  ⟨names, FrameId.global, [FrameId.global], 1⟩

theorem Stmt.conclude_inStep (rounds : Nat) (echo : Bool) {names : Names} {last last' : Stmt}
    (h : Stmt.Related (Token.Twin names others) last last') :
    InStep (.global names) (last.conclude rounds echo) (Reference.conclude rounds echo last') := by
  have hexecute : InStep (.global names) (last.execute rounds FrameId.global)
      (Reference.execute rounds last') := last.execute_inStep rounds h
  cases echo with
  | false => exact hexecute
  | true =>
      cases h with
      | @expression value _ hvalue =>
          have hevaluate : InStep (.global names) (value.evaluate FrameId.global) _ :=
            value.evaluate_inStep hvalue
          exact hevaluate.bind fun value => writeLine_inStep value
      | print | declare | declareAs | block | conditional | choice | loop => exact hexecute

theorem Program.run_inStep (rounds : Nat) (echo : Bool) {names : Names}
    {program program' : Program}
    (h : Stmt.RelatedRow (Token.Twin names others) program program') :
    InStep (.global names) (Program.run rounds echo program)
      (Reference.runProgram rounds echo program') := by
  induction program generalizing program' with
  | nil =>
      cases h
      exact .pure ()
  | cons first rest ih =>
      cases h with
      | cons hfirst hrest =>
          cases hrest with
          | nil => exact Stmt.conclude_inStep rounds echo hfirst
          | cons hsecond hothers =>
              rw [Program.run, Reference.runProgram]
              have hexecute : InStep (.global names) (first.execute rounds FrameId.global) _ :=
                first.execute_inStep rounds hfirst
              exact hexecute.bind fun _ => ih (.cons hsecond hothers)

end Treewalk
