import Treewalk.Proofs.Evaluation.Congruence
import Treewalk.Proofs.Scoping.Mirror

/-!
Runs look at nothing of a symbol but which others are the same and how it is spelled, and at
nothing of a line at all. So a program runs alike in two worlds whose frames bind matching symbols
to the same values, and if it stops in the one, it stops in the other on the matching line.
-/

namespace Treewalk

/-- Which symbols, lines and frames of one run match those of another. -/
structure Matching where
  symbol : Symbol → Symbol → Prop
  line : Line → Line → Prop
  bindings : Bindings → Bindings → Prop
  spelling_eq : ∀ {name other}, symbol name other → name.spelling = other.spelling
  get?_eq : ∀ {left right name other}, bindings left right → symbol name other →
    left.get? name = right.get? other
  empty : bindings {} {}
  replace : ∀ {left right name other} (value : Value), bindings left right →
    symbol name other → bindings (left.replace name value) (right.replace other value)
  add : ∀ {left right name other} (value : Value), bindings left right →
    symbol name other → bindings (left.add name value) (right.add other value)

structure Token.Matched (matching : Matching) (left right : Token) : Prop where
  kind_eq : left.kind = right.kind
  symbol : matching.symbol left.lexeme right.lexeme
  line : matching.line left.line right.line

inductive Stop.Matched (matching : Matching) : Stop → Stop → Prop
  | mistake {line other : Line} (cause : Mistake) : matching.line line other →
      Matched matching (.error (.mistake line cause)) (.error (.mistake other cause))
  | outputClosed : Matched matching (.error .outputClosed) (.error .outputClosed)
  | fault (fault : Fault) : Matched matching (.fault fault) (.fault fault)
  | outOfRounds : Matched matching .outOfRounds .outOfRounds

structure Frame.Matched (matching : Matching) (left right : Frame) : Prop where
  parent_eq : left.parent = right.parent
  bindings : matching.bindings left.bindings right.bindings

structure Store.Matched (matching : Matching) (left right : Store) : Prop where
  size_eq : left.frames.size = right.frames.size
  frames : ∀ id : FrameId,
    Option.Rel (Frame.Matched matching) left.frames[id]? right.frames[id]?
  pool_left : ∀ bindings ∈ left.pool, bindings = {}
  pool_right : ∀ bindings ∈ right.pool, bindings = {}

structure World.Matched (matching : Matching) (left right : World) : Prop where
  store : left.store.Matched matching right.store
  output_eq : left.output = right.output
  clock_eq : left.clock = right.clock

/-- Frames match where more bindings match. -/
theorem World.Matched.imp {matching matching' : Matching} (hbindings : ∀ left right,
      matching.bindings left right → matching'.bindings left right) {left right : World}
    (h : left.Matched matching right) : left.Matched matching' right where
  store :=
    { size_eq := h.store.size_eq
      frames := by
        intro id
        have hframe := h.store.frames id
        generalize left.store.frames[id]? = found at hframe
        generalize right.store.frames[id]? = found' at hframe
        cases hframe with
        | none => exact .none
        | some hframe => exact .some ⟨hframe.parent_eq, hbindings _ _ hframe.bindings⟩
      pool_left := h.store.pool_left
      pool_right := h.store.pool_right }
  output_eq := h.output_eq
  clock_eq := h.clock_eq

/-- Results that are related, or stops that match. -/
inductive Matching.Agree {α : Type} (matching : Matching) (related : α → α → Prop) :
    Except Stop α → Except Stop α → Prop
  | ok {result other : α} : related result other → Agree matching related (.ok result) (.ok other)
  | error {reason other : Stop} : reason.Matched matching other →
      Agree matching related (.error reason) (.error other)

/-! Frames that bind matching symbols in the same order. -/

/-- Bindings of matching symbols to the same values. -/
def Bindings.Entrywise (symbol : Symbol → Symbol → Prop) (left right : Bindings) : Prop :=
  List.Forall₂ (fun entry other => symbol entry.1 other.1 ∧ entry.2 = other.2) left.entries
    right.entries

theorem Bindings.Entrywise.get?_eq {symbol : Symbol → Symbol → Prop} {left right : Bindings}
    (h : left.Entrywise symbol right) {name other : Symbol}
    (hsame : ∀ {name' other'}, symbol name' other' → name'.same name = other'.same other) :
    left.get? name = right.get? other := by
  obtain ⟨entries⟩ := left
  obtain ⟨entries'⟩ := right
  unfold Bindings.Entrywise at h
  unfold Bindings.get?
  dsimp only at h ⊢
  induction h with
  | nil => rfl
  | @cons entry entry' entries entries' hentry _ ih =>
      rw [List.find?_cons, List.find?_cons, hsame hentry.1]
      split
      · exact congrArg some hentry.2
      · exact ih

theorem Bindings.Entrywise.replace {symbol : Symbol → Symbol → Prop} {left right : Bindings}
    (h : left.Entrywise symbol right) {name other : Symbol}
    (hsame : ∀ {name' other'}, symbol name' other' → name'.same name = other'.same other)
    (value : Value) : (left.replace name value).Entrywise symbol (right.replace other value) := by
  unfold Bindings.Entrywise Bindings.replace
  rw [List.forall₂_map_left_iff, List.forall₂_map_right_iff]
  refine h.imp fun entry entry' hentry => ?_
  rw [hsame hentry.1]
  split
  · exact ⟨hentry.1, rfl⟩
  · exact hentry

def Matching.entrywise (symbol : Symbol → Symbol → Prop) (line : Line → Line → Prop)
    (spelling_eq : ∀ {name other}, symbol name other → name.spelling = other.spelling)
    (same_eq : ∀ {name other name' other'}, symbol name other → symbol name' other' →
      name.same name' = other.same other') : Matching where
  symbol := symbol
  line := line
  bindings := Bindings.Entrywise symbol
  spelling_eq := spelling_eq
  get?_eq h hname := h.get?_eq fun hother => same_eq hother hname
  empty := .nil
  replace value h hname := h.replace (fun hother => same_eq hother hname) value
  add _ h hname := List.rel_append h (.cons ⟨hname, rfl⟩ .nil)

variable {matching : Matching}

theorem Token.Matched.blame {name other : Token} (h : name.Matched matching other)
    (cause : Mistake) : (name.blame cause).Matched matching (other.blame cause) :=
  .mistake cause h.line

/-! Stores. -/

namespace Store.Matched

variable {left right : Store} {name other : Symbol}

theorem binds_eq {frame frame' : Frame} (h : frame.Matched matching frame')
    (hname : matching.symbol name other) :
    frame.bindings.binds name = frame'.bindings.binds other := by
  rw [Bindings.binds_eq_isSome, Bindings.binds_eq_isSome, matching.get?_eq h.bindings hname]

theorem resolveWithin_eq (h : left.Matched matching right) (hname : matching.symbol name other)
    (steps : Nat) (id : FrameId) :
    left.resolveWithin name steps id = right.resolveWithin other steps id := by
  induction steps generalizing id with
  | zero => rfl
  | succ steps ih =>
      have hframe := h.frames id
      unfold Store.resolveWithin
      generalize left.frames[id]? = found at hframe
      generalize right.frames[id]? = found' at hframe
      cases hframe with
      | none => rfl
      | some hframe => simp only [binds_eq hframe hname, hframe.parent_eq, ih]

theorem get (h : left.Matched matching right) {name other : Token}
    (hname : name.Matched matching other) (frame : FrameId) :
    matching.Agree Eq (left.get frame name) (right.get frame other) := by
  simp only [Store.get, Store.resolve, h.resolveWithin_eq hname.symbol]
  split
  · exact .error (.fault _)
  · rw [matching.spelling_eq hname.symbol]
    exact .error (hname.blame _)
  · next home _ =>
      have hframe := h.frames home
      generalize left.frames[home]? = found at hframe
      generalize right.frames[home]? = found' at hframe
      cases hframe with
      | none => exact .error (.fault _)
      | some hframe =>
          simp only [Option.bind_some, matching.get?_eq hframe.bindings hname.symbol]
          split
          · exact .ok rfl
          · exact .error (.fault _)

theorem modify (h : left.Matched matching right) (home : FrameId)
    {change change' : Bindings → Bindings}
    (hchange : ∀ bindings bindings', matching.bindings bindings bindings' →
      matching.bindings (change bindings) (change' bindings')) :
    (left.modify home change).Matched matching (right.modify home change') where
  size_eq := by rw [size_frames_modify, size_frames_modify, h.size_eq]
  frames id := by
    have hframe := h.frames id
    rw [frames_modify, frames_modify]
    by_cases hid : home = id
    · rw [if_pos hid, if_pos hid]
      generalize left.frames[id]? = found at hframe
      generalize right.frames[id]? = found' at hframe
      cases hframe with
      | none => exact .none
      | some hframe => exact .some ⟨hframe.parent_eq, hchange _ _ hframe.bindings⟩
    · rw [if_neg hid, if_neg hid]
      exact hframe
  pool_left := h.pool_left
  pool_right := h.pool_right

theorem push (h : left.Matched matching right) (parent : FrameId) :
    (left.push parent).2.Matched matching (right.push parent).2 where
  size_eq := by rw [size_frames_push, size_frames_push, h.size_eq]
  frames id := by
    by_cases hid : id = left.frames.size
    · subst hid
      have hright := frames_push_self h.pool_right parent
      rw [frames_push_self h.pool_left, h.size_eq, hright]
      exact .some ⟨rfl, matching.empty⟩
    · have hid' : id ≠ right.frames.size := h.size_eq ▸ hid
      rw [frames_push, frames_push, if_neg hid, if_neg hid']
      exact h.frames id
  pool_left bindings hbindings := h.pool_left bindings (List.mem_of_mem_tail hbindings)
  pool_right bindings hbindings := h.pool_right bindings (List.mem_of_mem_tail hbindings)

theorem assign (h : left.Matched matching right) {name other : Token}
    (hname : name.Matched matching other) (frame : FrameId) (value : Value) :
    matching.Agree (Store.Matched matching) (left.assign frame name value)
      (right.assign frame other value) := by
  simp only [Store.assign, Store.resolve, h.resolveWithin_eq hname.symbol]
  split
  · exact .error (.fault _)
  · rw [matching.spelling_eq hname.symbol]
    exact .error (hname.blame _)
  · exact .ok (h.modify _ fun _ _ hbindings => matching.replace value hbindings hname.symbol)

theorem define (h : left.Matched matching right) {name other : Token}
    (hname : name.Matched matching other) (frame : FrameId) (value : Value) :
    matching.Agree (Store.Matched matching) (left.define frame name value)
      (right.define frame other value) := by
  have hframe := h.frames frame
  unfold Store.define
  generalize left.frames[frame]? = found at hframe
  generalize right.frames[frame]? = found' at hframe
  cases hframe with
  | none => exact .error (.fault _)
  | some hframe =>
      simp only [binds_eq hframe hname.symbol]
      split
      · rw [matching.spelling_eq hname.symbol]
        exact .error (hname.blame _)
      · exact .ok (h.modify frame fun _ _ hbindings => matching.add value hbindings hname.symbol)

theorem pop (h : left.Matched matching right) (frame : FrameId) :
    matching.Agree (Store.Matched matching) ((left.pop frame).mapError .fault)
      ((right.pop frame).mapError .fault) := by
  have hlast := h.frames (left.frames.size - 1)
  unfold Store.pop
  simp only [Array.back?_eq_getElem?, ← h.size_eq]
  generalize left.frames[left.frames.size - 1]? = found at hlast
  generalize right.frames[left.frames.size - 1]? = found' at hlast
  cases hlast with
  | none => exact .error (.fault _)
  | some _ =>
      dsimp only
      split
      · refine .ok ⟨by rw [Array.size_pop, Array.size_pop, h.size_eq], fun id => ?_, ?_, ?_⟩
        · simp only [Array.getElem?_pop, ← h.size_eq]
          split
          · exact h.frames id
          · exact .none
        · exact List.forall_mem_cons.mpr ⟨rfl, h.pool_left⟩
        · exact List.forall_mem_cons.mpr ⟨rfl, h.pool_right⟩
      · exact .error (.fault _)

end Store.Matched

/-! Runs. -/

namespace Run

variable {α β : Type}

inductive EndsMatched (matching : Matching) :
    EStateM.Result Stop World α → EStateM.Result Stop World α → Prop
  | ok {value : α} {world other : World} : world.Matched matching other →
      EndsMatched matching (.ok value world) (.ok value other)
  | error {reason reason' : Stop} {world other : World} : reason.Matched matching reason' →
      world.Matched matching other →
      EndsMatched matching (.error reason world) (.error reason' other)

/-- In matching worlds, two runs end alike. -/
def Matches (matching : Matching) (left right : Run α) : Prop :=
  ∀ ⦃world other : World⦄, world.Matched matching other →
    EndsMatched matching (left world) (right other)

theorem Matches.pure (value : α) : Matches matching (Pure.pure value) (Pure.pure value) :=
  fun _ _ h => .ok h

theorem Matches.bind {first first' : Run α} {next next' : α → Run β}
    (hfirst : Matches matching first first')
    (hnext : ∀ value, Matches matching (next value) (next' value)) :
    Matches matching (first >>= next) (first' >>= next') := by
  intro world other hworld
  have h := hfirst hworld
  simp only [Bind.bind, EStateM.bind]
  generalize first world = result at h
  generalize first' other = result' at h
  cases h with
  | ok hafter => exact hnext _ hafter
  | error hreason hafter => exact .error hreason hafter

theorem Matches.stop {reason reason' : Stop} (h : reason.Matched matching reason') :
    Matches matching (Run.stop reason : Run α) (Run.stop reason') :=
  fun _ _ hworld => .error h hworld

theorem Matches.lookup {name other : Token} (h : name.Matched matching other)
    (frame : FrameId) : Matches matching (Run.lookup frame name) (Run.lookup frame other) := by
  intro world world' hworld
  have hget := hworld.store.get h frame
  rw [lookup_apply, lookup_apply]
  generalize world.store.get frame name = result at hget
  generalize world'.store.get frame other = result' at hget
  cases hget with
  | ok hvalue =>
      cases hvalue
      exact .ok hworld
  | error hreason => exact .error hreason hworld

theorem Matches.changeStore {change change' : Store → Except Stop Store}
    (h : ∀ left right, left.Matched matching right →
      matching.Agree (Store.Matched matching) (change left) (change' right)) :
    Matches matching (Run.changeStore change) (Run.changeStore change') := by
  intro world other hworld
  have hchange := h _ _ hworld.store
  rw [changeStore_apply, changeStore_apply]
  generalize change world.store = result at hchange
  generalize change' other.store = result' at hchange
  cases hchange with
  | ok hstore => exact .ok { hworld with store := hstore }
  | error hreason => exact .error hreason hworld

theorem Matches.assign {name other : Token} (h : name.Matched matching other) (frame : FrameId)
    (value : Value) :
    Matches matching (Run.assign frame name value) (Run.assign frame other value) :=
  .changeStore fun _ _ hstore => hstore.assign h frame value

theorem Matches.define {name other : Token} (h : name.Matched matching other) (frame : FrameId)
    (value : Value) :
    Matches matching (Run.define frame name value) (Run.define frame other value) :=
  .changeStore fun _ _ hstore => hstore.define h frame value

theorem Matches.release (frame : FrameId) :
    Matches matching (Run.release frame) (Run.release frame) :=
  .changeStore fun _ _ hstore => hstore.pop frame

theorem Matches.writeLine (value : Value) :
    Matches matching (Run.writeLine value) (Run.writeLine value) := by
  intro world other hworld
  rw [Run.writeLine, Run.writeLine, hworld.output_eq]
  generalize other.output.writeLine value.text = result
  obtain ⟨taken, output⟩ := result
  cases taken with
  | true => exact .ok { hworld with output_eq := rfl }
  | false => exact .error .outputClosed { hworld with output_eq := rfl }

theorem Matches.readClock : Matches matching Run.readClock Run.readClock := by
  intro world other hworld
  rw [Run.readClock, Run.readClock, hworld.clock_eq]
  exact .ok { hworld with clock_eq := rfl }

theorem Matches.inFrame {body body' : FrameId → Run Unit}
    (hbody : ∀ inner, Matches matching (body inner) (body' inner)) (parent : FrameId) :
    Matches matching (Run.inFrame parent body) (Run.inFrame parent body') := by
  intro world other hworld
  have hrun := hbody other.store.frames.size
    (show World.Matched matching { world with store := (world.store.push parent).2 }
      { other with store := (other.store.push parent).2 } from
        { hworld with store := hworld.store.push parent })
  have hrelease : Matches matching (Run.release other.store.frames.size)
      (Run.release other.store.frames.size) := .release _
  simp only [Run.inFrame, Store.push_fst, hworld.store.size_eq]
  generalize body _ _ = result at hrun
  generalize body' _ _ = result' at hrun
  cases hrun with
  | ok hafter => exact hrelease hafter
  | error hreason hafter =>
      have hreleased := hrelease hafter
      dsimp only
      generalize Run.release _ _ = released at hreleased
      generalize Run.release _ _ = released' at hreleased
      cases hreleased with
      | ok hlast => exact .error hreason hlast
      | error hfault hlast => exact .error hfault hlast

theorem Matches.congruence (matching : Matching) :
    Congruence (Token.Matched matching) fun left right => Matches matching left right where
  kind_eq h := h.kind_eq
  pure := .pure
  fault fault := .stop (.fault fault)
  outOfRounds _ := .stop .outOfRounds
  blame h cause := .stop (h.blame cause)
  bind := .bind
  lookup frame h := .lookup h frame
  assign frame value h := .assign h frame value
  define frame value h := .define h frame value
  readClock := .readClock
  writeLine := .writeLine
  inFrame := .inFrame

end Run

open Run

theorem Stmt.executeRow_matches (rounds : Nat) (frame : FrameId) (row : List Stmt)
    {row' : List Stmt} (h : Stmt.RelatedRow (Token.Matched matching) row row') :
    Matches matching (Stmt.executeRow rounds frame row) (Stmt.executeRow rounds frame row') :=
  (Matches.congruence matching).executeRow rounds frame row h

theorem Program.run_matches (rounds : Nat) (echo : Bool) {program program' : Program}
    (h : Stmt.RelatedRow (Token.Matched matching) program program') :
    Matches matching (Program.run rounds echo program) (Program.run rounds echo program') :=
  (Matches.congruence matching).run rounds echo h

end Treewalk
