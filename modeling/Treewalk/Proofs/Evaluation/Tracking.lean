import Treewalk.Proofs.Evaluation.Matching
import Treewalk.Proofs.Evaluation.Safety

/-!
Two runs side by side. They come to the same results, write the same and read the clock as often,
while a relation of their stores lasts.
-/

namespace Treewalk

/-- The same has been written, the clock has been read as often, and the stores are related. -/
structure World.Beside (stores : Store → Store → Prop) (left right : World) : Prop where
  store : stores left.store right.store
  output_eq : left.output = right.output
  clock_eq : left.clock = right.clock

theorem World.Beside.eq {stores : Store → Store → Prop} {left right : World}
    (h : left.Beside stores right) (hstore : right.store = left.store) : right = left := by
  obtain ⟨store, output, clock⟩ := right
  cases hstore
  cases h.output_eq
  cases h.clock_eq
  rfl

namespace Run

variable {α β : Type} {stores : Store → Store → Prop} {left right : World}

inductive EndsBeside (stores : Store → Store → Prop) :
    EStateM.Result Stop World α → EStateM.Result Stop World α → Prop
  | ok {value : α} {left right : World} : left.Beside stores right →
      EndsBeside stores (.ok value left) (.ok value right)
  | error {reason : Stop} {left right : World} : left.Beside stores right →
      EndsBeside stores (.error reason left) (.error reason right)

/-- Where the stores are related before, the two runs end in the same way, and the stores are
related as after. -/
def Leads (before after : Store → Store → Prop) (run run' : Run α) : Prop :=
  ∀ ⦃left right : World⦄, left.Beside before right → EndsBeside after (run left) (run' right)

/-- Where the stores are related, the two runs end in the same way, and the stores are related
again. -/
def Tracks (stores : Store → Store → Prop) (run run' : Run α) : Prop :=
  ∀ ⦃left right : World⦄, left.Beside stores right → EndsBeside stores (run left) (run' right)

/-- The stores are related, or they are both refused for the same reason. -/
inductive Agrees (stores : Store → Store → Prop) :
    Except Stop Store → Except Stop Store → Prop
  | ok {left right : Store} : stores left right → Agrees stores (.ok left) (.ok right)
  | error (reason : Stop) : Agrees stores (.error reason) (.error reason)

namespace EndsBeside

variable {result result' : EStateM.Result Stop World α}

theorem refl {result : EStateM.Result Stop World α}
    (h : stores (Run.last result).store (Run.last result).store) :
    EndsBeside stores result result := by
  cases result with
  | ok value world => exact .ok ⟨h, rfl, rfl⟩
  | error reason world => exact .error ⟨h, rfl, rfl⟩

theorem last (h : EndsBeside stores result result') :
    (Run.last result).Beside stores (Run.last result') := by
  cases h with
  | ok hlast | error hlast => exact hlast

theorem imp {others : Store → Store → Prop} (h : EndsBeside stores result result')
    (hothers : others (Run.last result).store (Run.last result').store) :
    EndsBeside others result result' := by
  cases h with
  | ok hlast => exact .ok { hlast with store := hothers }
  | error hlast => exact .error { hlast with store := hothers }

theorem change {others : Store → Store → Prop} (h : EndsBeside stores result result')
    {step step' : World → World}
    (hstep : ∀ left right : World, left.Beside stores right →
      (step left).Beside others (step' right)) :
    EndsBeside others (mapWorld step result) (mapWorld step' result') := by
  cases h with
  | ok hlast => exact .ok (hstep _ _ hlast)
  | error hlast => exact .error (hstep _ _ hlast)

/-- The first runs may leave the stores related in another way, in which they can stop as well. -/
theorem bind {middle : Store → Store → Prop} {first first' : Run α} {next next' : α → Run β}
    (hfirst : EndsBeside middle (first left) (first' right))
    (hstop : ∀ left right, middle left right → stores left right)
    (hnext : ∀ value world world', first left = .ok value world → world.Beside middle world' →
      EndsBeside stores (next value world) (next' value world')) :
    EndsBeside stores ((first >>= next) left) ((first' >>= next') right) := by
  simp only [Bind.bind, EStateM.bind]
  generalize first left = result at hfirst hnext
  generalize first' right = result' at hfirst
  cases hfirst with
  | ok hmiddle => exact hnext _ _ _ rfl hmiddle
  | error hmiddle => exact .error { hmiddle with store := hstop _ _ hmiddle.store }

end EndsBeside

section

variable {before middle after : Store → Store → Prop}

theorem Leads.imp {run run' : Run α} (h : Leads before middle run run')
    (himp : ∀ left right, middle left right → after left right) : Leads before after run run' :=
  fun _ _ hworld => (h hworld).imp (himp _ _ (h hworld).last.store)

theorem Leads.bind {first first' : Run α} {next next' : α → Run β}
    (hfirst : Leads before middle first first')
    (hstop : ∀ left right, middle left right → after left right)
    (hnext : ∀ value, Leads middle after (next value) (next' value)) :
    Leads before after (first >>= next) (first' >>= next') :=
  fun _ _ h => (hfirst h).bind hstop fun value _ _ _ hmiddle => hnext value hmiddle

/-- A change that is refused leaves the stores as they were. -/
theorem Leads.changeStore {change change' : Store → Except Stop Store}
    (hstop : ∀ left right, before left right → after left right)
    (h : ∀ left right, before left right → Agrees after (change left) (change' right)) :
    Leads before after (Run.changeStore change) (Run.changeStore change') := by
  intro left right hworld
  have hchange := h _ _ hworld.store
  rw [changeStore_apply, changeStore_apply]
  generalize change left.store = result at hchange
  generalize change' right.store = result' at hchange
  cases hchange with
  | ok hstore => exact .ok { hworld with store := hstore }
  | error reason => exact .error { hworld with store := hstop _ _ hworld.store }

end

theorem Tracks.pure (value : α) : Tracks stores (Pure.pure value) (Pure.pure value) :=
  fun _ _ h => .ok h

theorem Tracks.stop (reason : Stop) : Tracks stores (Run.stop reason : Run α) (Run.stop reason) :=
  fun _ _ h => .error h

theorem Tracks.bind {first first' : Run α} {next next' : α → Run β}
    (hfirst : Tracks stores first first')
    (hnext : ∀ value, Tracks stores (next value) (next' value)) :
    Tracks stores (first >>= next) (first' >>= next') :=
  Leads.bind hfirst (fun _ _ => id) hnext

theorem Tracks.lookup {frame frame' : FrameId} {name other : Token}
    (h : ∀ left right, stores left right → left.get frame name = right.get frame' other) :
    Tracks stores (Run.lookup frame name) (Run.lookup frame' other) := by
  intro left right hworld
  rw [lookup_apply, lookup_apply, h _ _ hworld.store]
  cases right.store.get frame' other with
  | ok value => exact .ok hworld
  | error reason => exact .error hworld

theorem Tracks.changeStore {change change' : Store → Except Stop Store}
    (h : ∀ left right, stores left right → Agrees stores (change left) (change' right)) :
    Tracks stores (Run.changeStore change) (Run.changeStore change') :=
  Leads.changeStore (fun _ _ => id) h

theorem Tracks.writeLine (value : Value) :
    Tracks stores (Run.writeLine value) (Run.writeLine value) := by
  intro left right hworld
  rw [Run.writeLine, Run.writeLine, hworld.output_eq]
  generalize right.output.writeLine value.text = result
  obtain ⟨taken, output⟩ := result
  cases taken with
  | true => exact .ok { hworld with output_eq := rfl }
  | false => exact .error { hworld with output_eq := rfl }

theorem Tracks.readClock : Tracks stores Run.readClock Run.readClock := by
  intro left right hworld
  rw [Run.readClock, Run.readClock, hworld.clock_eq]
  exact .ok { hworld with clock_eq := rfl }

theorem Tracks.ofExcept (result : Except Stop α) :
    Tracks stores (Run.ofExcept result) (Run.ofExcept result) := by
  cases result with
  | ok value => exact .pure value
  | error reason => exact .stop reason

theorem Tracks.call (callee : Value) (closing : Token) (arguments : List Value) :
    Tracks stores (callee.call closing arguments) (callee.call closing arguments) := by
  cases callee with
  | native function =>
      simp only [Value.call, Native.call]
      split
      · cases function.builtin with
        | clock =>
            simp only [map_eq_pure_bind]
            exact Tracks.readClock.bind fun _ => .pure _
        | lastArgument => exact .pure _
      · exact .stop _
  | nil | boolean | number | string => exact .stop _

theorem Agrees.imp {others : Store → Store → Prop} {result result' : Except Stop Store}
    (h : Agrees stores result result')
    (hothers : ∀ left right, result = .ok left → stores left right → others left right) :
    Agrees others result result' := by
  cases h with
  | ok hstores => exact .ok (hothers _ _ rfl hstores)
  | error reason => exact .error reason

/-- Inside a new frame the stores may be related in another way. -/
theorem Tracks.inFrame {inner : Store → Store → Prop} {frame frame' : FrameId}
    {body body' : FrameId → Run Unit}
    (hpush : ∀ left right, stores left right → inner (left.push frame).2 (right.push frame').2)
    (hbody : ∀ left right, stores left right →
      Tracks inner (body left.frames.size) (body' right.frames.size))
    (hpop : ∀ left right left' right', stores left right → inner left' right' →
      ∃ later later', left'.pop left.frames.size = .ok later ∧
        right'.pop right.frames.size = .ok later' ∧ stores later later') :
    Tracks stores (Run.inFrame frame body) (Run.inFrame frame' body') := by
  intro left right hworld
  have hpushed : World.Beside inner { left with store := (left.store.push frame).2 }
      { right with store := (right.store.push frame').2 } :=
    { hworld with store := hpush _ _ hworld.store }
  have hends := hbody _ _ hworld.store hpushed
  have hrelease {world other : World} (hlast : world.Beside inner other) :
      ∃ after after', Run.release left.store.frames.size world = .ok () after ∧
        Run.release right.store.frames.size other = .ok () after' ∧
          after.Beside stores after' := by
    obtain ⟨later, later', hleft, hright, hlater⟩ := hpop _ _ _ _ hworld.store hlast.store
    refine ⟨{ world with store := later }, { other with store := later' }, ?_, ?_, ?_⟩
    · rw [release, changeStore_apply, hleft]
      rfl
    · rw [release, changeStore_apply, hright]
      rfl
    · exact { hlast with store := hlater }
  simp only [Run.inFrame, Store.push_fst]
  generalize body _ _ = result at hends
  generalize body' _ _ = result' at hends
  cases hends with
  | ok hafter =>
      obtain ⟨after, after', hleft, hright, hlast⟩ := hrelease hafter
      simp only [hleft, hright]
      exact .ok hlast
  | error hafter =>
      obtain ⟨after, after', hleft, hright, hlast⟩ := hrelease hafter
      simp only [hleft, hright]
      exact .error hlast

theorem Tracks.repeatWhile {test test' : Run Bool} {body body' : Run Unit}
    (htest : Tracks stores test test') (hbody : Tracks stores body body') (rounds : Nat) :
    Tracks stores (Run.repeatWhile test body rounds) (Run.repeatWhile test' body' rounds) := by
  induction rounds with
  | zero => exact .stop .outOfRounds
  | succ rounds ih =>
      apply htest.bind
      intro holds
      cases holds with
      | true => exact hbody.bind fun _ => ih
      | false => exact .pure ()

end Run

/-! Stores with the same open frames. -/

/-- The same frames are open and bind the same. Released bindings may be kept in different numbers,
but all of them are empty. -/
structure Store.Alike (left right : Store) : Prop where
  frames_eq : left.frames = right.frames
  pool_left : ∀ bindings ∈ left.pool, bindings = {}
  pool_right : ∀ bindings ∈ right.pool, bindings = {}

/-- The same frames are open, and the given one is among them. -/
structure Store.AlikeAt (frame : FrameId) (left right : Store) : Prop extends
    Store.Alike left right where
  isOpen : left.Open frame

/-- Names, lines and bindings match if they are equal. -/
def Matching.exact : Matching where
  symbol := Eq
  line := Eq
  bindings := Eq
  spelling_eq := congrArg Symbol.spelling
  get?_eq := by
    rintro left _ name _ rfl rfl
    rfl
  empty := rfl
  replace := by
    rintro left _ name _ value rfl rfl
    rfl
  add := by
    rintro left _ name _ value rfl rfl
    rfl

theorem Token.matched_exact (token : Token) : token.Matched .exact token :=
  ⟨rfl, rfl, rfl⟩

theorem Store.Alike.matched {left right : Store} (h : left.Alike right) :
    left.Matched .exact right where
  size_eq := congrArg Array.size h.frames_eq
  frames id := by
    rw [h.frames_eq]
    cases right.frames[id]? with
    | none => exact .none
    | some frame => exact .some ⟨rfl, rfl⟩
  pool_left := h.pool_left
  pool_right := h.pool_right

theorem Store.Matched.alike {left right : Store} (h : left.Matched .exact right) :
    left.Alike right where
  frames_eq := by
    apply Array.ext_getElem?
    intro id
    have hframe := h.frames id
    generalize left.frames[id]? = found at hframe
    generalize right.frames[id]? = found' at hframe
    cases hframe with
    | none => rfl
    | @some frame frame' hframe =>
        obtain ⟨parent, bindings⟩ := frame
        obtain ⟨hparent, hbindings⟩ := hframe
        cases hparent
        cases hbindings
        rfl
  pool_left := h.pool_left
  pool_right := h.pool_right

namespace Run

variable {α : Type} {frame : FrameId} {names : List Symbol}

/-- A run that looks at nothing but the open frames keeps track of itself. -/
theorem Matches.tracks {run : Run α} (h : Matches .exact run run) (hgrows : Grows frame names run)
    (home : FrameId) : Tracks (Store.AlikeAt home) run run := by
  intro left right hworld
  have hends := h ⟨hworld.store.toAlike.matched, hworld.output_eq, hworld.clock_eq⟩
  obtain ⟨added, -, hlater⟩ := hgrows left hworld.store.isOpen.size_pos
  have hopen := hworld.store.isOpen.grow hlater
  generalize run left = result at hends hopen
  generalize run right = result' at hends
  cases hends with
  | ok hlast => exact .ok ⟨⟨hlast.store.alike, hopen⟩, hlast.output_eq, hlast.clock_eq⟩
  | error hreason hlast =>
      cases hreason with
      | mistake cause hline =>
          cases hline
          exact .error ⟨⟨hlast.store.alike, hopen⟩, hlast.output_eq, hlast.clock_eq⟩
      | outputClosed | fault | outOfRounds =>
          exact .error ⟨⟨hlast.store.alike, hopen⟩, hlast.output_eq, hlast.clock_eq⟩

end Run

open Run

theorem Expr.evaluate_tracks (home frame : FrameId) (value : Expr) :
    Tracks (Store.AlikeAt home) (value.evaluate frame) (value.evaluate frame) := by
  have hgrows : Run.Grows frame [] (value.evaluate frame) := value.evaluate_grows frame
  exact ((Matches.congruence .exact).evaluate frame value
    (.refl Token.matched_exact value)).tracks hgrows home

theorem Stmt.execute_tracks (home frame : FrameId) (rounds : Nat) (statement : Stmt) :
    Tracks (Store.AlikeAt home) (statement.execute rounds frame)
      (statement.execute rounds frame) :=
  ((Matches.congruence .exact).execute rounds frame statement
    (.refl Token.matched_exact statement)).tracks (statement.execute_grows rounds frame) home

end Treewalk
