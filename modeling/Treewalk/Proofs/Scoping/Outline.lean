import Treewalk.Proofs.Evaluation.Closure
import Treewalk.Proofs.Grammar.Placement

/-!
Outlines: the parents of the open frames and the names that they bind. However a run ends, the
outline of the store is as before, but for names that a statement declares in its own frame.
-/

namespace Treewalk

/-- What of a frame stays when variables change their values. -/
def Frame.outline (frame : Frame) : Option FrameId × List Symbol :=
  (frame.parent, frame.bindings.entries.map Prod.fst)

namespace Store

def outline (store : Store) (id : FrameId) : Option (Option FrameId × List Symbol) :=
  (store.frames[id]?).map Frame.outline

/-- Names have been added to a frame. All else of the outline is as before, and released bindings
are still empty. -/
structure Grows (frame : FrameId) (added : List Symbol) (store later : Store) : Prop where
  size_eq : later.frames.size = store.frames.size
  outline_eq : ∀ id, later.outline id = (store.outline id).map fun outline =>
    if id = frame then (outline.1, outline.2 ++ added) else outline
  pool : (∀ bindings ∈ store.pool, bindings = {}) → ∀ bindings ∈ later.pool, bindings = {}

variable {frame : FrameId} {store middle later : Store}

theorem Grows.refl (frame : FrameId) (store : Store) : Grows frame [] store store := by
  refine ⟨rfl, ?_, id⟩
  intro id
  cases store.outline id <;> simp

theorem Grows.trans {first second : List Symbol} (hfirst : Grows frame first store middle)
    (hsecond : Grows frame second middle later) : Grows frame (first ++ second) store later := by
  refine ⟨hsecond.size_eq.trans hfirst.size_eq, ?_, fun hpool => hsecond.pool (hfirst.pool hpool)⟩
  intro id
  rw [hsecond.outline_eq, hfirst.outline_eq, Option.map_map]
  congr 1
  funext outline
  by_cases hid : id = frame <;> simp [hid]

theorem Grows.outline_of_ne {added : List Symbol} (h : Grows frame added store later)
    {id : FrameId} (hid : id ≠ frame) : later.outline id = store.outline id := by
  rw [h.outline_eq]
  simp [hid]

/-- Without new names, it does not matter to which frame they have been added. -/
theorem Grows.outline_of_nil (h : Grows frame [] store later) (id : FrameId) :
    later.outline id = store.outline id := by
  rw [h.outline_eq]
  cases store.outline id <;> simp

theorem Grows.of_nil (h : Grows frame [] store later) (other : FrameId) :
    Grows other [] store later := by
  refine ⟨h.size_eq, ?_, h.pool⟩
  intro id
  rw [h.outline_of_nil]
  cases store.outline id <;> simp

theorem Grows.parent_eq {added : List Symbol} (h : Grows frame added store later) (id : FrameId) :
    (later.frames[id]?).map Frame.parent = (store.frames[id]?).map Frame.parent := by
  have houtline := congrArg (Option.map Prod.fst) (h.outline_eq id)
  simpa [Store.outline, Option.map_map, Function.comp_def, Frame.outline, apply_ite Prod.fst]
    using houtline

theorem Grows.path {added : List Symbol} (h : Grows frame added store later) {other : FrameId}
    {ids : List FrameId} (hpath : store.Path other ids) : later.Path other ids :=
  hpath.congr fun id _ => h.parent_eq id

theorem grows_modify {change : Bindings → Bindings} {added : List Symbol}
    (hchange : ∀ bindings, (change bindings).entries.map Prod.fst =
      bindings.entries.map Prod.fst ++ added) (frame : FrameId) :
    Grows frame added store (store.modify frame change) := by
  refine ⟨size_frames_modify _ _ _, ?_, id⟩
  intro id
  simp only [outline, frames_modify]
  by_cases hid : frame = id
  · subst hid
    cases store.frames[frame]? <;> simp [Frame.outline, hchange]
  · cases store.frames[id]? <;> simp [hid, Ne.symm hid]

theorem grows_of_assign {name : Token} {value : Value}
    (h : store.assign frame name value = .ok later) (other : FrameId) :
    Grows other [] store later := by
  obtain ⟨home, rfl⟩ := of_assign h
  refine (grows_modify (fun bindings => ?_) home).of_nil other
  simp only [Bindings.replace, List.map_map, List.append_nil]
  apply List.map_congr_left
  intro entry _
  simp only [Function.comp_apply]
  split <;> rfl

theorem grows_of_define {name : Token} {value : Value}
    (h : store.define frame name value = .ok later) :
    Grows frame [name.lexeme] store later := by
  obtain rfl := of_define h
  refine grows_modify (fun bindings => ?_) frame
  simp [Bindings.add]

theorem outline_push (store : Store) (parent : FrameId) {id : FrameId}
    (hid : id < store.frames.size) : (store.push parent).2.outline id = store.outline id := by
  rw [outline, outline, frames_push, if_neg (Nat.ne_of_lt hid)]

theorem grows_of_pop {parent : FrameId} {added : List Symbol}
    (h : Grows store.frames.size added (store.push parent).2 later) (released : Bindings) :
    Grows frame [] store ⟨later.frames.pop, released.clear :: later.pool⟩ := by
  have hsize := h.size_eq.trans (size_frames_push store parent)
  refine ⟨by simp [hsize], ?_, ?_⟩
  · intro id
    have hpop : (⟨later.frames.pop, released.clear :: later.pool⟩ : Store).outline id =
        store.outline id := by
      by_cases hid : id < store.frames.size
      · rw [outline, Array.getElem?_pop, if_pos (by rw [hsize]; exact hid), ← outline,
          h.outline_of_ne (Nat.ne_of_lt hid), outline_push store parent hid]
      · rw [outline, Array.getElem?_pop, if_neg (by rw [hsize]; exact hid), outline,
          Array.getElem?_eq_none (Nat.le_of_not_lt hid)]
    rw [hpop]
    cases store.outline id <;> simp
  · intro hpool bindings hbindings
    have hpushed : ∀ bindings ∈ (store.push parent).2.pool, bindings = {} :=
      fun bindings hmem => hpool bindings (List.mem_of_mem_tail hmem)
    rcases List.mem_cons.mp hbindings with rfl | hbindings
    · rfl
    · exact h.pool hpushed bindings hbindings

end Store

def Run.last {α : Type} : EStateM.Result Stop World α → World
  | .ok _ world => world
  | .error _ world => world

namespace Run

variable {α β : Type} {frame : FrameId} {names : List Symbol}

/-- However a run ends, only some of the given names have been added to the outline, in one
frame. -/
def Grows (frame : FrameId) (names : List Symbol) (run : Run α) : Prop :=
  ∀ world : World, 0 < world.store.frames.size →
    ∃ added, added ⊆ names ∧ Store.Grows frame added world.store (last (run world)).store

theorem Grows.of_eq {run : Run α}
    (h : ∀ world, (last (run world)).store = world.store) : Grows frame names run := by
  intro world _
  refine ⟨[], List.nil_subset _, ?_⟩
  rw [h]
  exact .refl _ _

theorem Grows.weaken {run : Run α} {others : List Symbol} (h : Grows frame names run)
    (hnames : names ⊆ others) : Grows frame others run := by
  intro world hworld
  obtain ⟨added, hadded, hgrows⟩ := h world hworld
  exact ⟨added, List.Subset.trans hadded hnames, hgrows⟩

theorem Grows.pure (value : α) : Grows frame names (Pure.pure value) :=
  .of_eq fun _ => rfl

theorem Grows.stop (reason : Stop) : Grows frame names (Run.stop reason : Run α) :=
  .of_eq fun _ => rfl

theorem Grows.bind {first : Run α} {next : α → Run β} (hfirst : Grows frame names first)
    (hnext : ∀ value, Grows frame names (next value)) : Grows frame names (first >>= next) := by
  intro world hworld
  obtain ⟨added, hadded, hgrows⟩ := hfirst world hworld
  cases hrun : first world with
  | error reason after =>
      rw [hrun] at hgrows
      rw [bind_eq_of_error hrun]
      exact ⟨added, hadded, hgrows⟩
  | ok value after =>
      rw [hrun] at hgrows
      obtain ⟨others, hothers, hlast⟩ := hnext value after (by
        rw [show after.store.frames.size = _ from hgrows.size_eq]
        exact hworld)
      rw [bind_eq_of_ok hrun]
      exact ⟨added ++ others, List.append_subset.mpr ⟨hadded, hothers⟩, hgrows.trans hlast⟩

theorem Grows.changeStore {change : Store → Except Stop Store}
    (h : ∀ store later, change store = .ok later → ∃ added, added ⊆ names ∧
      Store.Grows frame added store later) : Grows frame names (Run.changeStore change) := by
  intro world _
  rw [changeStore_apply]
  cases hchange : change world.store with
  | ok later => exact h _ _ hchange
  | error reason => exact ⟨[], List.nil_subset _, .refl _ _⟩

theorem Grows.lookup (home : FrameId) (name : Token) :
    Grows frame names (Run.lookup home name) := by
  refine .of_eq fun world => ?_
  rw [lookup_apply]
  cases world.store.get home name <;> rfl

theorem Grows.assign (home : FrameId) (name : Token) (value : Value) :
    Grows frame names (Run.assign home name value) :=
  .changeStore fun _ _ h => ⟨[], List.nil_subset _, Store.grows_of_assign h frame⟩

theorem Grows.define {name : Token} (hname : name.lexeme ∈ names) (value : Value) :
    Grows frame names (Run.define frame name value) :=
  .changeStore fun _ _ h => ⟨[name.lexeme], by simpa using hname, Store.grows_of_define h⟩

theorem Grows.writeLine (value : Value) : Grows frame names (Run.writeLine value) := by
  refine .of_eq fun world => ?_
  rw [Run.writeLine]
  split <;> rfl

theorem Grows.readClock : Grows frame names Run.readClock :=
  .of_eq fun _ => rfl

theorem Grows.closed (frame : FrameId) (names : List Symbol) :
    Closed fun run => Grows frame names run where
  pure := .pure
  stop := .stop
  bind := .bind
  lookup := .lookup
  assign := .assign
  readClock := .readClock

/-- As many frames are open after the run as before it. -/
def Keeps (run : Run α) : Prop :=
  ∀ world : World, 0 < world.store.frames.size →
    (last (run world)).store.frames.size = world.store.frames.size

theorem Grows.last_of_nil {run : Run α} (h : Grows frame [] run) {world : World}
    (hworld : 0 < world.store.frames.size) :
    Store.Grows frame [] world.store (last (run world)).store := by
  obtain ⟨added, hadded, hgrows⟩ := h world hworld
  rwa [List.subset_nil.mp hadded] at hgrows

theorem Grows.keeps {run : Run α} (h : Grows frame names run) : Keeps run := by
  intro world hopen
  obtain ⟨_, -, hgrows⟩ := h world hopen
  exact hgrows.size_eq

def mapWorld (change : World → World) :
    EStateM.Result Stop World α → EStateM.Result Stop World α
  | .ok value world => .ok value (change world)
  | .error reason world => .error reason (change world)

theorem last_mapWorld (change : World → World) (result : EStateM.Result Stop World α) :
    last (mapWorld change result) = change (last result) := by
  cases result <;> rfl

/-- The world after the innermost frame has been released. -/
def leave (world : World) : World :=
  { world with store := ⟨world.store.frames.pop, {} :: world.store.pool⟩ }

/-- A run in a frame of its own ends as it ends, and the frame is released. -/
theorem inFrame_apply {parent : FrameId} {body : FrameId → Run Unit} {world : World}
    (hopen : 0 < world.store.frames.size) (hkeeps : Keeps (body world.store.frames.size)) :
    Run.inFrame parent body world = mapWorld leave
      (body world.store.frames.size { world with store := (world.store.push parent).2 }) := by
  have hframes := hkeeps { world with store := (world.store.push parent).2 } (by simp)
  have hrelease (after : World)
      (hafter : after.store.frames.size = (world.store.push parent).2.frames.size) :
      Run.release world.store.frames.size after = .ok () (leave after) := by
    obtain ⟨_, hrelease⟩ := release_apply (hafter.trans (Store.size_frames_push _ _))
      (Nat.ne_of_gt hopen)
    exact hrelease
  simp only [Run.inFrame, Store.push_fst]
  cases hrun : body world.store.frames.size
      { world with store := (world.store.push parent).2 } with
  | ok value after =>
      rw [hrun] at hframes
      exact hrelease after hframes
  | error reason after =>
      rw [hrun] at hframes
      simp only [hrelease after hframes]
      rfl

theorem Grows.inFrame {body : FrameId → Run Unit}
    (hbody : ∀ inner, Grows inner names (body inner)) (parent : FrameId) :
    Grows frame [] (Run.inFrame parent body) := by
  intro world hworld
  obtain ⟨added, -, hgrows⟩ := hbody world.store.frames.size
    { world with store := (world.store.push parent).2 } (by simp)
  have hleft : Store.Grows frame [] world.store _ := Store.grows_of_pop hgrows {}
  refine ⟨[], List.nil_subset _, ?_⟩
  rw [inFrame_apply hworld (hbody _).keeps]
  generalize body _ _ = result at hleft
  cases result <;> exact hleft

end Run

variable {frame : FrameId} {names : List Symbol}

theorem Expr.evaluate_grows (home : FrameId) (value : Expr) :
    Run.Grows frame names (value.evaluate home) :=
  (Run.Grows.closed frame names).evaluate home value

theorem Expr.evaluateRow_grows (home : FrameId) (row : List Expr) :
    Run.Grows frame names (Expr.evaluateRow home row) :=
  (Run.Grows.closed frame names).evaluateRow home row

theorem Expr.holds_grows (home : FrameId) (condition : Expr) :
    Run.Grows frame names (condition.holds home) :=
  (Run.Grows.closed frame names).holds home condition

theorem Expr.evaluate_keeps (home : FrameId) (value : Expr) : Run.Keeps (value.evaluate home) := by
  have hgrows : Run.Grows home [] (value.evaluate home) := value.evaluate_grows home
  exact hgrows.keeps

theorem Expr.holds_keeps (home : FrameId) (condition : Expr) :
    Run.Keeps (condition.holds home) := by
  have hgrows : Run.Grows home [] (condition.holds home) := condition.holds_grows home
  exact hgrows.keeps

mutual

/-- The execution of a statement keeps the outline, but for the variables that the statement
declares outside of blocks. -/
theorem Stmt.execute_grows (rounds : Nat) (frame : FrameId) (statement : Stmt) :
    Run.Grows frame (statement.declared.map Token.lexeme) (statement.execute rounds frame) := by
  match statement with
  | .expression value =>
      rw [Stmt.execute]
      exact (value.evaluate_grows frame).bind fun _ => .pure _
  | .print value =>
      rw [Stmt.execute]
      exact (value.evaluate_grows frame).bind fun value => .writeLine value
  | .declare name none =>
      rw [Stmt.execute]
      exact .define (by simp [Stmt.declared]) _
  | .declare name (some initial) =>
      rw [Stmt.execute]
      exact (initial.evaluate_grows frame).bind fun value => .define (by simp [Stmt.declared]) value
  | .block body =>
      rw [Stmt.execute]
      exact .inFrame (fun inner => Stmt.executeRow_grows rounds inner body) frame
  | .conditional condition consequent none =>
      rw [Stmt.execute]
      apply (condition.holds_grows frame).bind
      intro holds
      cases holds with
      | true => exact consequent.execute_grows rounds frame
      | false => exact .pure ()
  | .conditional condition consequent (some alternative) =>
      rw [Stmt.execute]
      apply (condition.holds_grows frame).bind
      intro holds
      rw [Stmt.declared, List.map_append]
      cases holds with
      | true =>
          exact (consequent.execute_grows rounds frame).weaken (List.subset_append_left _ _)
      | false =>
          exact (alternative.execute_grows rounds frame).weaken (List.subset_append_right _ _)
  | .loop condition body =>
      rw [Stmt.execute]
      exact (Run.Grows.closed _ _).repeatWhile (condition.holds_grows frame)
        (body.execute_grows rounds frame) rounds

theorem Stmt.executeRow_grows (rounds : Nat) (frame : FrameId) (row : List Stmt) :
    Run.Grows frame ((row.flatMap Stmt.declared).map Token.lexeme)
      (Stmt.executeRow rounds frame row) := by
  match row with
  | [] => exact .pure ()
  | first :: rest =>
      rw [Stmt.executeRow, List.flatMap_cons, List.map_append]
      exact ((first.execute_grows rounds frame).weaken (List.subset_append_left _ _)).bind
        fun _ => (Stmt.executeRow_grows rounds frame rest).weaken (List.subset_append_right _ _)

end

theorem Stmt.execute_keeps (rounds : Nat) (frame : FrameId) (statement : Stmt) :
    Run.Keeps (statement.execute rounds frame) :=
  (statement.execute_grows rounds frame).keeps

theorem Stmt.executeRow_keeps (rounds : Nat) (frame : FrameId) (row : List Stmt) :
    Run.Keeps (Stmt.executeRow rounds frame row) :=
  (Stmt.executeRow_grows rounds frame row).keeps

end Treewalk
