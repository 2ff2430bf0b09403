import Mathlib.Data.List.Forall2
import Treewalk.Proofs.Parsing.Program
import Treewalk.Proofs.Scoping.Moment
import Treewalk.Proofs.Scoping.Outline

/-!
Scoping is static. Whenever a node of a program that has been read is executed, the frames on the
way outwards are those of the blocks around the node, and each binds the variables declared
before the node in the list of its block. So the position of a node in the program tells in which
of these frames a name has its meaning.
-/

namespace Treewalk

/-! The exact outline after statements that have been executed without an error. -/

theorem Run.Grows.of_ok {α : Type} {frame : FrameId} {run : Run α} (h : Run.Grows frame [] run)
    {world after : World} {value : α} (hsize : 0 < world.store.frames.size)
    (hrun : run world = .ok value after) : Store.Grows frame [] world.store after.store := by
  have hgrows := h.last_of_nil hsize
  rwa [hrun] at hgrows

theorem Stmt.declared_eq_toList {statement : Stmt} (h : statement.Placed) :
    statement.declared = statement.declares?.toList := by
  match statement with
  | .declare name _ => rfl
  | .expression _ | .print _ | .block _ => rfl
  | .conditional _ consequent none => simpa [declared, declares?] using h.1
  | .conditional _ consequent (some alternative) =>
      simp [declared, declares?, h.1.1, h.2.1]
  | .loop _ body => simpa [declared, declares?] using h.1

theorem Stmt.declare_grows {rounds : Nat} {frame : FrameId} {name : Token}
    {initial : Option Expr} {world after : World} (hsize : 0 < world.store.frames.size)
    (h : (Stmt.declare name initial).execute rounds frame world = .ok () after) :
    Store.Grows frame [name.lexeme] world.store after.store := by
  have hdefine {value : Value} {before : World}
      (hdefine : Run.define frame name value before = .ok () after) :
      Store.Grows frame [name.lexeme] before.store after.store := by
    rw [Run.define, Run.changeStore_apply] at hdefine
    split at hdefine
    · next store hstore =>
        cases hdefine
        exact Store.grows_of_define hstore
    · contradiction
  cases initial with
  | none =>
      rw [Stmt.execute] at h
      exact hdefine h
  | some initial =>
      rw [Stmt.execute] at h
      obtain ⟨value, before, hvalue, h⟩ := Run.ok_of_bind h
      have hevaluate : Store.Grows frame [] world.store before.store :=
        (initial.evaluate_grows frame).of_ok hsize hvalue
      exact hevaluate.trans (hdefine h)

/-- A placed statement that is executed without an error adds the variable that it declares. -/
theorem Stmt.Placed.grows {statement : Stmt} (hplaced : statement.Placed) {rounds : Nat}
    {frame : FrameId} {world after : World} (hsize : 0 < world.store.frames.size)
    (h : statement.execute rounds frame world = .ok () after) :
    Store.Grows frame (statement.declares?.toList.map Token.lexeme) world.store after.store := by
  have hgrows := statement.execute_grows rounds frame
  rw [Stmt.declared_eq_toList hplaced] at hgrows
  cases statement with
  | declare name initial => exact Stmt.declare_grows hsize h
  | expression | print | block | conditional | loop => exact hgrows.of_ok hsize h

theorem Stmt.declares_cons (first : Stmt) (rest : List Stmt) :
    (first :: rest).filterMap declares? =
      first.declares?.toList ++ rest.filterMap declares? := by
  cases hdeclares : first.declares? <;> simp [hdeclares]

theorem Stmt.PlacedRow.grows {row : List Stmt} (hplaced : Stmt.PlacedRow row) {rounds : Nat}
    {frame : FrameId} {world after : World} (hsize : 0 < world.store.frames.size)
    (h : Stmt.executeRow rounds frame row world = .ok () after) :
    Store.Grows frame ((row.filterMap Stmt.declares?).map Token.lexeme) world.store
      after.store := by
  induction row generalizing world with
  | nil =>
      cases h
      exact .refl _ _
  | cons first rest ih =>
      rw [Stmt.executeRow] at h
      obtain ⟨_, middle, hfirst, hrest⟩ := Run.ok_of_bind h
      have hgrows := hplaced.1.grows hsize hfirst
      have hmiddle := ih hplaced.2 (by rw [hgrows.size_eq]; exact hsize) hrest
      rw [Stmt.declares_cons, List.map_append]
      exact hgrows.trans hmiddle

theorem Laps.grows {frame : FrameId} {test : Run Bool} {body : Run Unit} {rounds left : Nat}
    {world last : World} (h : Laps test body rounds world left last)
    (htest : Run.Grows frame [] test) (hbody : Run.Grows frame [] body)
    (hsize : 0 < world.store.frames.size) : Store.Grows frame [] world.store last.store := by
  induction h with
  | start _ _ => exact .refl _ _
  | lap hholds hround _ ih =>
      have hfirst := htest.of_ok hsize hholds
      have hsecond := hbody.of_ok (by rw [hfirst.size_eq]; exact hsize) hround
      have hlast := ih (by rw [hsecond.size_eq, hfirst.size_eq]; exact hsize)
      exact (hfirst.trans hsecond).trans hlast

theorem Laps.grows_loop {rounds left : Nat} {frame : FrameId} {condition : Expr} {body : Stmt}
    {world last : World}
    (h : Laps (condition.holds frame) (body.execute rounds frame) rounds world left last)
    (hdeclared : body.declared = []) (hsize : 0 < world.store.frames.size) :
    Store.Grows frame [] world.store last.store := by
  have hbody := body.execute_grows rounds frame
  rw [hdeclared] at hbody
  exact h.grows (condition.holds_grows frame) hbody hsize

namespace Store

variable {store later : Store} {frame : FrameId} {ids : List FrameId} {scopes : Scopes}

/-- The frames on the way outwards are those of the scopes, which bind exactly the variables
declared there, followed by the global one. -/
structure Scoped (store : Store) (frame : FrameId) (ids : List FrameId) (scopes : Scopes) :
    Prop where
  path : store.Path frame (ids ++ [FrameId.global])
  binds : List.Forall₂ (fun id declared => ∃ parent,
    store.outline id = some (parent, declared.map Token.lexeme)) ids scopes

theorem parent_of_outline (id : FrameId) :
    (store.frames[id]?).map Frame.parent = (store.outline id).map Prod.fst := by
  rw [outline, Option.map_map]
  rfl

theorem Scoped.frame_lt_size (h : store.Scoped frame ids scopes) :
    frame < store.frames.size :=
  h.path.lt_size frame h.path.mem_self

theorem Scoped.congr (h : store.Scoped frame ids scopes)
    (houtline : ∀ id < store.frames.size, later.outline id = store.outline id) :
    later.Scoped frame ids scopes where
  path := h.path.congr fun id hid => by
    rw [parent_of_outline, parent_of_outline, houtline id (h.path.lt_size id hid)]
  binds := by
    have hids : ∀ id ∈ ids, id < store.frames.size := fun id hid =>
      h.path.lt_size id (List.mem_append_left _ hid)
    apply ((List.forall₂_and_left _ _).mpr ⟨hids, h.binds⟩).imp
    rintro id declared ⟨hid, hbinds⟩
    rwa [houtline id hid]

theorem Scoped.grow (h : store.Scoped frame ids scopes) {other : FrameId}
    (hgrows : Grows other [] store later) : later.Scoped frame ids scopes :=
  h.congr fun id _ => hgrows.outline_of_nil id

theorem Scoped.block (h : store.Scoped frame ids scopes)
    (hpool : ∀ bindings ∈ store.pool, bindings = {}) {declared : List Token}
    (hgrows : Grows store.frames.size (declared.map Token.lexeme) (store.push frame).2 later) :
    later.Scoped store.frames.size (store.frames.size :: ids) (declared :: scopes) where
  path := hgrows.path h.path.push_inner
  binds := by
    refine .cons ⟨some frame, ?_⟩ ?_
    · rw [hgrows.outline_eq, outline, frames_push_self hpool frame]
      simp [Frame.outline]
    · have hids : ∀ id ∈ ids, id < store.frames.size := fun id hid =>
        h.path.lt_size id (List.mem_append_left _ hid)
      apply ((List.forall₂_and_left _ _).mpr ⟨hids, h.binds⟩).imp
      rintro id declared ⟨hid, hbinds⟩
      rwa [hgrows.outline_of_ne (Nat.ne_of_lt hid), outline_push store frame hid]

theorem bindsAt_of_outline {id : FrameId} {outline : Option FrameId × List Symbol}
    (h : store.outline id = some outline) (name : Symbol) :
    store.bindsAt name id = outline.2.any (·.same name) := by
  obtain ⟨frame, hframe, rfl⟩ := Option.map_eq_some_iff.mp h
  simp only [bindsAt, hframe, Option.any_some, Bindings.binds, Frame.outline, List.any_map]
  rfl

/-- What a frame binds stays bound. -/
theorem Grows.bindsAt {added : List Symbol} {name : Symbol} {id : FrameId}
    (h : Grows frame added store later) (hbinds : store.bindsAt name id = true) : later.bindsAt name id = true := by
  cases houtline : store.outline id with
  | none =>
      have hframe : store.frames[id]? = none := Option.map_eq_none_iff.mp houtline
      simp [Store.bindsAt, hframe] at hbinds
  | some outline =>
      rw [bindsAt_of_outline houtline] at hbinds
      have hlater := h.outline_eq id
      rw [houtline, Option.map_some] at hlater
      rw [bindsAt_of_outline hlater]
      split
      · rw [List.any_append, hbinds, Bool.true_or]
      · exact hbinds

theorem Grows.bindsAt_of_mem {added : List Symbol} {name : Symbol} (h : Grows frame added store later)
    (hframe : frame < store.frames.size) (hname : name ∈ added) :
    later.bindsAt name frame = true := by
  have houtline : store.outline frame = some store.frames[frame].outline := by
    rw [outline, Array.getElem?_eq_getElem hframe, Option.map_some]
  have hlater := h.outline_eq frame
  rw [houtline, Option.map_some, if_pos rfl] at hlater
  rw [bindsAt_of_outline hlater, List.any_append, Bool.or_eq_true]
  exact .inr (List.any_eq_true.mpr ⟨name, hname, name.same_self⟩)

/-- The scopes tell in which frame a name has its meaning. -/
theorem Scoped.resolve_eq (h : store.Scoped frame ids scopes) (name : Symbol) :
    store.resolve frame name = .ok
      (match scopes.home? name with
      | some place => ids[place]?
      | none => if store.bindsAt name FrameId.global then some FrameId.global else none) := by
  have hinner : ids.find? (store.bindsAt name) = (scopes.home? name).bind (ids[·]?) := by
    have hbinds := h.binds
    clear h
    induction hbinds with
    | nil => rfl
    | @cons id declared ids scopes hfirst _ ih =>
        obtain ⟨parent, houtline⟩ := hfirst
        have hid : store.bindsAt name id = declared.any (·.lexeme.same name) := by
          rw [bindsAt_of_outline houtline, List.any_map]
          rfl
        rw [Scopes.home?, List.findIdx?_cons, List.find?_cons, hid]
        cases declared.any (·.lexeme.same name) with
        | true => rfl
        | false =>
            simp only [Bool.false_eq_true, if_false, ih, Scopes.home?]
            cases scopes.findIdx? fun declared => declared.any (·.lexeme.same name) <;> rfl
  rw [resolve_of_path h.path, List.find?_append, hinner]
  congr 1
  cases hhome : scopes.home? name with
  | none =>
      rw [Option.bind_none, Option.none_or, List.find?_singleton]
  | some place =>
      obtain ⟨hplace, -⟩ := List.findIdx?_eq_some_iff_getElem.mp hhome
      rw [← h.binds.length_eq] at hplace
      rw [Option.bind_some, List.getElem?_eq_getElem hplace, Option.some_or]
      exact (List.getElem?_eq_getElem hplace).symm

end Store

namespace Moment

/-- A moment as it should be: the frames are those of the scopes around the node. -/
structure Sound (moment : Moment) (ids : List FrameId) (scopes : Scopes) : Prop where
  frames : moment.world.store.Scoped moment.frame ids scopes
  pool : ∀ bindings ∈ moment.world.store.pool, bindings = {}
  placed : moment.node.Placed

variable {rounds : Nat} {ids : List FrameId} {scopes : Scopes} {frame : FrameId}
  {world after : World} {node child : Node} {outer inner : Moment} {place : Nat}

theorem Sound.size_pos {moment : Moment} (h : moment.Sound ids scopes) :
    0 < moment.world.store.frames.size :=
  Nat.lt_of_le_of_lt (Nat.zero_le _) h.frames.frame_lt_size

/-- A child of a node is executed in the scopes of the node, with that of a block added. It can
only declare variables in a frame that is newer than the node. -/
structure Leads (ids : List FrameId) (scopes : Scopes) (outer : Moment) (place : Nat)
    (inner : Moment) : Prop where
  child : outer.node.children[place]? = some inner.node
  sound : ∃ ids', inner.Sound ids' (outer.node.scopesWithin place scopes)
  size_le : outer.world.store.frames.size ≤ inner.world.store.frames.size
  outline_eq : ∀ id < outer.world.store.frames.size,
    inner.world.store.outline id = outer.world.store.outline id
  apart : inner.node.declared = [] ∨ outer.world.store.frames.size ≤ inner.frame

theorem Sound.leads (h : Sound ⟨node, frame, world⟩ ids scopes)
    (hchild : node.children[place]? = some child)
    (hscopes : node.scopesWithin place scopes = scopes) (hplaced : child.Placed)
    (hdeclared : child.declared = []) (hgrows : Store.Grows frame [] world.store after.store) :
    Leads ids scopes ⟨node, frame, world⟩ place ⟨child, frame, after⟩ where
  child := hchild
  sound := ⟨ids, by
    rw [hscopes]
    exact ⟨h.frames.grow hgrows, hgrows.pool h.pool, hplaced⟩⟩
  size_le := Nat.le_of_eq hgrows.size_eq.symm
  outline_eq id _ := hgrows.outline_of_nil id
  apart := .inl hdeclared

theorem Sound.leads_block {body : List Stmt} {statement : Stmt}
    (h : Sound ⟨.statement (.block body), frame, world⟩ ids scopes)
    (hrow : Stmt.executeRow rounds world.store.frames.size (body.take place)
      { world with store := (world.store.push frame).2 } = .ok () after)
    (hstatement : body[place]? = some statement) :
    Leads ids scopes ⟨.statement (.block body), frame, world⟩ place
      ⟨.statement statement, world.store.frames.size, after⟩ := by
  have hbody : ∀ statement ∈ body, statement.Placed := by
    have hplaced : Stmt.Placed (.block body) := h.placed
    rwa [Stmt.Placed, Stmt.placedRow_iff] at hplaced
  have htaken : Stmt.PlacedRow (body.take place) :=
    Stmt.placedRow_iff.mpr fun statement hmem => hbody statement (List.mem_of_mem_take hmem)
  have hgrows := htaken.grows (by simp) hrow
  have hsize := hgrows.size_eq.trans (Store.size_frames_push world.store frame)
  refine ⟨by simp [Node.children, hstatement], ⟨_, h.frames.block h.pool hgrows, ?_, ?_⟩, ?_, ?_,
    .inr (Nat.le_refl _)⟩
  · exact hgrows.pool fun bindings hmem => h.pool bindings (List.mem_of_mem_tail hmem)
  · exact hbody statement (List.mem_of_getElem? hstatement)
  · exact Nat.le_trans (Nat.le_succ _) (Nat.le_of_eq hsize.symm)
  · intro id hid
    exact (hgrows.outline_of_ne (Nat.ne_of_lt hid)).trans (Store.outline_push world.store frame hid)

theorem Enters.leads (h : outer.Enters rounds place inner) (hsound : outer.Sound ids scopes) :
    Leads ids scopes outer place inner := by
  have hsize := hsound.size_pos
  cases h with
  | group | operand | left | first | assigned | callee | expression | print | initial =>
      exact hsound.leads rfl rfl trivial rfl (.refl _ _)
  | @right left _ _ frame _ _ _ hleft | @second left _ _ frame _ _ _ hleft _ =>
      have hgrows : Store.Grows frame [] _ _ := (left.evaluate_grows frame).of_ok hsize hleft
      exact hsound.leads rfl rfl trivial rfl hgrows
  | @argument callee _ _ arguments place frame _ called after _ _ hcallee hrow hargument =>
      have hcalled : Store.Grows frame [] _ called.store :=
        (callee.evaluate_grows frame).of_ok hsize hcallee
      have hafter : Store.Grows frame [] called.store after.store :=
        (Expr.evaluateRow_grows frame _).of_ok (by rw [hcalled.size_eq]; exact hsize) hrow
      refine hsound.leads ?_ rfl trivial rfl (hcalled.trans hafter)
      simp [Node.children, hargument]
  | block hrow hstatement => exact hsound.leads_block hrow hstatement
  | @condition _ _ alternative =>
      cases alternative <;> exact hsound.leads rfl rfl trivial rfl (.refl _ _)
  | @consequent condition consequent alternative frame _ _ hholds =>
      have hgrows : Store.Grows frame [] _ _ := (condition.holds_grows frame).of_ok hsize hholds
      have hplaced := hsound.placed
      cases alternative with
      | none => exact hsound.leads rfl rfl hplaced.2 hplaced.1 hgrows
      | some other => exact hsound.leads rfl rfl hplaced.1.2 hplaced.1.1 hgrows
  | @alternative condition _ _ frame _ _ hholds =>
      have hgrows : Store.Grows frame [] _ _ := (condition.holds_grows frame).of_ok hsize hholds
      exact hsound.leads rfl rfl hsound.placed.2.2 hsound.placed.2.1 hgrows
  | @test condition body _ frame _ _ hlaps =>
      have hgrows := hlaps.grows_loop hsound.placed.1 hsize
      exact hsound.leads rfl rfl trivial rfl hgrows
  | @body condition body _ frame _ last _ hlaps hholds =>
      have hgrows := hlaps.grows_loop hsound.placed.1 hsize
      have htested : Store.Grows frame [] last.store _ :=
        (condition.holds_grows frame).of_ok (by rw [hgrows.size_eq]; exact hsize) hholds
      exact hsound.leads rfl rfl hsound.placed.2 hsound.placed.1 (hgrows.trans htested)

theorem Finishes.grows {moment : Moment} (h : moment.Finishes rounds after)
    (hsound : moment.Sound ids scopes) :
    Store.Grows moment.frame (moment.node.declared.map Token.lexeme) moment.world.store
      after.store := by
  have hsize := hsound.size_pos
  obtain ⟨node, frame, world⟩ := moment
  cases node with
  | expression value =>
      obtain ⟨result, hresult⟩ := h
      exact (value.evaluate_grows frame).of_ok hsize hresult
  | statement value =>
      have hplaced : value.Placed := hsound.placed
      rw [Node.declared, Stmt.declared_eq_toList hplaced]
      exact hplaced.grows hsize h

/-- While a node is executed, the outline of the frames that were open before stays. -/
theorem During.outline_eq {moment : Moment} (h : moment.During rounds world)
    (hsound : moment.Sound ids scopes) :
    ∀ id < moment.world.store.frames.size,
      world.store.outline id = moment.world.store.outline id := by
  induction h generalizing ids scopes with
  | start _ => exact fun _ _ => rfl
  | child henters _ ih =>
      have hleads := henters.leads hsound
      obtain ⟨ids', hinner⟩ := hleads.sound
      intro id hid
      rw [ih hinner id (Nat.lt_of_lt_of_le hid hleads.size_le), hleads.outline_eq id hid]
  | after henters hfinishes =>
      have hleads := henters.leads hsound
      obtain ⟨ids', hinner⟩ := hleads.sound
      have hgrows := hfinishes.grows hinner
      intro id hid
      rw [← hleads.outline_eq id hid]
      rcases hleads.apart with hdeclared | hapart
      · rw [hdeclared] at hgrows
        exact hgrows.outline_of_nil id
      · exact hgrows.outline_of_ne (Nat.ne_of_lt (Nat.lt_of_lt_of_le hid hapart))

end Moment

namespace Node

theorem at?_concat {node outer child : Node} {path : List Nat} {place : Nat}
    {scopes inner : Scopes} (h : node.at? path scopes = some (outer, inner))
    (hchild : outer.children[place]? = some child) :
    node.at? (path ++ [place]) scopes = some (child, outer.scopesWithin place inner) := by
  induction path generalizing node scopes with
  | nil =>
      cases h
      simp [at?, hchild]
  | cons first rest ih =>
      simp only [at?, List.cons_append] at h ⊢
      split at h
      · contradiction
      · exact ih h

end Node

namespace Program

theorem occurrence?_concat {program : Program} {outer child : Node} {path : List Nat}
    {place : Nat} {scopes : Scopes} (h : program.occurrence? path = some (outer, scopes))
    (hchild : outer.children[place]? = some child) :
    program.occurrence? (path ++ [place]) = some (child, outer.scopesWithin place scopes) := by
  cases path with
  | nil => contradiction
  | cons first rest =>
      simp only [occurrence?, List.cons_append] at h ⊢
      split at h
      · contradiction
      · exact Node.at?_concat h hchild

end Program

def Store.ofGlobals (bindings : Bindings) (pooled : Nat) : Store :=
  ⟨#[⟨none, bindings⟩], List.replicate pooled {}⟩

namespace Program

variable {program : Program} {rounds : Nat} {bindings : Bindings} {pooled : Nat}
  {output : Output} {clock : Clock} {path : List Nat} {moment : Moment}

/-- Whenever the execution of a node starts, the frames are those of its static scopes. -/
theorem Starts.sound (hplaced : ∀ statement ∈ program, statement.Placed)
    (h : program.Starts rounds ⟨.ofGlobals bindings pooled, output, clock⟩ path moment) :
    ∃ ids scopes, program.occurrence? path = some (moment.node, scopes) ∧
      moment.Sound ids scopes := by
  induction h with
  | @begins place statement world hrow hstatement =>
      have htaken : Stmt.PlacedRow (program.take place) := Stmt.placedRow_iff.mpr
        fun statement hmem => hplaced statement (List.mem_of_mem_take hmem)
      have hgrows := htaken.grows (by exact Nat.zero_lt_one) hrow
      have hstart : (Store.ofGlobals bindings pooled).Path FrameId.global [FrameId.global] :=
        .outermost rfl rfl
      refine ⟨[], [], by simp [occurrence?, Node.at?, hstatement], ⟨hgrows.path hstart, .nil⟩, ?_,
        hplaced statement (List.mem_of_getElem? hstatement)⟩
      exact hgrows.pool fun bindings hmem => (List.mem_replicate.mp hmem).2
  | @enters path place outer inner _ henters ih =>
      obtain ⟨ids, scopes, hoccurrence, hsound⟩ := ih
      have hleads := henters.leads hsound
      obtain ⟨ids', hinner⟩ := hleads.sound
      exact ⟨ids', _, occurrence?_concat hoccurrence hleads.child, hinner⟩

theorem Executing.sound (hplaced : ∀ statement ∈ program, statement.Placed)
    (h : program.Executing rounds ⟨.ofGlobals bindings pooled, output, clock⟩ path moment) :
    ∃ ids scopes, program.occurrence? path = some (moment.node, scopes) ∧
      moment.world.store.Scoped moment.frame ids scopes := by
  obtain ⟨begun, hstarts, hduring⟩ := h
  obtain ⟨ids, scopes, hoccurrence, hsound⟩ := hstarts.sound hplaced
  exact ⟨ids, scopes, hoccurrence, hsound.frames.congr (hduring.outline_eq hsound)⟩

end Program

end Treewalk
