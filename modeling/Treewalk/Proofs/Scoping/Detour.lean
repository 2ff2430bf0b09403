import Treewalk.Proofs.Evaluation.Rounds
import Treewalk.Proofs.Parsing.StatementSound
import Treewalk.Proofs.Scoping.Arena
import Treewalk.Proofs.Scoping.Static

/-!
Detours. A frame that never binds anything makes no difference to what is executed within it: names
mean what they would mean without it, and whatever is opened within it takes the place after the one
it would take.
-/

namespace Treewalk

namespace Store

/-- The frame in which a run is that has opened so many frames, each within the one before. The
first of them is the one at the given place. -/
def current (home place : Nat) : Nat → Nat
  | 0 => home
  | depth + 1 => place + depth

/-- Where a frame is found if there is one more at a place. -/
def passing (place id : Nat) : Nat :=
  if id < place then id else id + 1

/-- The stores differ in a frame that binds nothing. It lies at the given place within a frame
`home` and around all frames that have been opened within that frame since. -/
structure Detours (home place depth : Nat) (wide narrow : Store) : Prop where
  size_wide : wide.frames.size = place + depth + 1
  size_narrow : narrow.frames.size = place + depth
  outer : ∀ id : Nat, id < place → wide.frames[id]? = narrow.frames[id]?
  empty : wide.frames[place]? = some ⟨some home, {}⟩
  inner : ∀ level < depth, ∃ bindings,
    wide.frames[place + level + 1]? = some ⟨some (place + level), bindings⟩ ∧
      narrow.frames[place + level]? = some ⟨some (current home place level), bindings⟩
  home_lt : home < place
  isOpen : narrow.Open home
  pool_wide : ∀ bindings ∈ wide.pool, bindings = {}
  pool_narrow : ∀ bindings ∈ narrow.pool, bindings = {}

section

variable {place id other : Nat}

theorem passing_of_lt (h : id < place) : passing place id = id :=
  if_pos h

theorem passing_of_le (h : place ≤ id) : passing place id = id + 1 :=
  if_neg (Nat.not_lt_of_le h)

theorem passing_inj (place id other : Nat) :
    passing place id = passing place other ↔ id = other := by
  unfold passing
  split <;> split <;> omega

theorem passing_ne (place id : Nat) : passing place id ≠ place := by
  unfold passing
  split <;> omega

end

variable {home place depth : Nat} {wide narrow : Store}

theorem current_lt (h : home < place) (depth : Nat) : current home place depth < place + depth := by
  cases depth with
  | zero => exact h
  | succ depth => exact Nat.lt_succ_self _

namespace Detours

theorem bindings_eq (h : Detours home place depth wide narrow) (id : Nat) :
    (wide.frames[passing place id]?).map Frame.bindings =
      (narrow.frames[id]?).map Frame.bindings := by
  by_cases hlt : id < place
  · rw [passing_of_lt hlt, h.outer id hlt]
  · obtain ⟨level, rfl⟩ := Nat.exists_eq_add_of_le (Nat.le_of_not_lt hlt)
    rw [passing_of_le (Nat.le_add_right place level)]
    by_cases hlevel : level < depth
    · obtain ⟨bindings, hwide, hnarrow⟩ := h.inner level hlevel
      rw [hwide, hnarrow]
      rfl
    · have hwide := h.size_wide
      have hnarrow := h.size_narrow
      rw [Array.getElem?_eq_none (by omega), Array.getElem?_eq_none (by omega)]

theorem bindsAt_eq (h : Detours home place depth wide narrow) (name : Symbol) (id : Nat) :
    wide.bindsAt name (passing place id) = narrow.bindsAt name id := by
  have hmap (found : Option Frame) : found.any (·.bindings.binds name) =
      (found.map Frame.bindings).any (·.binds name) := by
    cases found <;> rfl
  rw [bindsAt, bindsAt, hmap, hmap, h.bindings_eq]

/-- The way outwards leads through the same frames in their places, and through the empty one. -/
theorem exists_paths (h : Detours home place depth wide narrow) {level : Nat}
    (hlevel : level ≤ depth) :
    ∃ path path', wide.Path (place + level) path ∧ narrow.Path (current home place level) path' ∧
      ∀ name, path.find? (wide.bindsAt name) =
        (path'.find? (narrow.bindsAt name)).map (passing place) := by
  induction level with
  | zero =>
      obtain ⟨outer, hnarrow⟩ := h.isOpen
      have hbefore {id : Nat} (hid : id ∈ outer) : id < place :=
        Nat.lt_of_le_of_lt (hnarrow.le id hid) h.home_lt
      have hwide : wide.Path home outer :=
        hnarrow.congr fun id hid => congrArg _ (h.outer id (hbefore hid))
      refine ⟨place :: outer, outer, .inner h.empty rfl h.home_lt hwide, hnarrow, ?_⟩
      intro name
      have hempty : wide.bindsAt name place = false := by
        rw [bindsAt, h.empty]
        rfl
      have hsame : outer.map (passing place) = outer :=
        (List.map_congr_left fun id hid => passing_of_lt (hbefore hid)).trans (List.map_id outer)
      have hfound : (outer.map (passing place)).find? (wide.bindsAt name) =
          (outer.find? (narrow.bindsAt name)).map (passing place) := by
        rw [List.find?_map]
        congr 2
        funext id
        exact h.bindsAt_eq name id
      rw [List.find?_cons_of_neg (by simp [hempty]), ← hfound, hsame]
  | succ level ih =>
      obtain ⟨path, path', hwide, hnarrow, hfind⟩ := ih (Nat.le_of_succ_le hlevel)
      obtain ⟨bindings, hframe, hframe'⟩ := h.inner level hlevel
      have hpasses := passing_of_le (Nat.le_add_right place level)
      refine ⟨(place + level + 1) :: path, (place + level) :: path',
        .inner hframe rfl (Nat.lt_succ_self _) hwide,
        .inner hframe' rfl (current_lt h.home_lt level) hnarrow, ?_⟩
      intro name
      rw [List.find?_cons, List.find?_cons, ← hpasses, h.bindsAt_eq, hfind]
      cases narrow.bindsAt name (place + level) with
      | true => rfl
      | false => rfl

theorem resolve_eq (h : Detours home place depth wide narrow) (name : Symbol) :
    ∃ found, narrow.resolve (current home place depth) name = .ok found ∧
      wide.resolve (place + depth) name = .ok (found.map (passing place)) := by
  obtain ⟨path, path', hwide, hnarrow, hfind⟩ := h.exists_paths (Nat.le_refl depth)
  exact ⟨_, resolve_of_path hnarrow name, by rw [resolve_of_path hwide, hfind]⟩

theorem get_eq (h : Detours home place depth wide narrow) (name : Token) :
    wide.get (place + depth) name = narrow.get (current home place depth) name := by
  obtain ⟨found, hnarrow, hwide⟩ := h.resolve_eq name.lexeme
  simp only [get, hnarrow, hwide]
  cases found with
  | none => rfl
  | some id =>
      have hmap (found : Option Frame) : found.bind (·.bindings.get? name.lexeme) =
          (found.map Frame.bindings).bind (·.get? name.lexeme) := by
        cases found <;> rfl
      simp only [Option.map_some]
      rw [hmap, hmap, h.bindings_eq]

/-- The stores still differ in the empty frame only if the same changes in another. -/
theorem modify (h : Detours home place depth wide narrow) (id : Nat)
    (change : Bindings → Bindings) :
    Detours home place depth (wide.modify (passing place id) change)
      (narrow.modify id change) where
  size_wide := by rw [size_frames_modify, h.size_wide]
  size_narrow := by rw [size_frames_modify, h.size_narrow]
  outer other hother := by
    have hsame := passing_inj place id other
    rw [passing_of_lt hother] at hsame
    rw [frames_modify, frames_modify, h.outer other hother]
    simp only [hsame]
  empty := by rw [frames_modify, if_neg (passing_ne place id), h.empty]
  inner level hlevel := by
    obtain ⟨bindings, hwide, hnarrow⟩ := h.inner level hlevel
    have hsame := passing_inj place id (place + level)
    rw [passing_of_le (Nat.le_add_right place level)] at hsame
    simp only [frames_modify, hwide, hnarrow, hsame]
    split
    · exact ⟨_, rfl, rfl⟩
    · exact ⟨_, rfl, rfl⟩
  home_lt := h.home_lt
  isOpen := by
    obtain ⟨path, hpath⟩ := h.isOpen
    exact ⟨path, hpath.modify id change⟩
  pool_wide := h.pool_wide
  pool_narrow := h.pool_narrow

theorem assign (h : Detours home place depth wide narrow) (name : Token) (value : Value) :
    Run.Agrees (Detours home place depth) (wide.assign (place + depth) name value)
      (narrow.assign (current home place depth) name value) := by
  obtain ⟨found, hnarrow, hwide⟩ := h.resolve_eq name.lexeme
  simp only [Store.assign, hnarrow, hwide]
  cases found with
  | none => exact .error _
  | some id => exact .ok (h.modify id _)

theorem define (h : Detours home place (depth + 1) wide narrow) (name : Token) (value : Value) :
    Run.Agrees (Detours home place (depth + 1)) (wide.define (place + (depth + 1)) name value)
      (narrow.define (place + depth) name value) := by
  obtain ⟨bindings, hwide, hnarrow⟩ := h.inner depth (Nat.lt_succ_self depth)
  have hmodify := h.modify (place + depth) (·.add name.lexeme value)
  rw [passing_of_le (Nat.le_add_right place depth)] at hmodify
  simp only [Store.define, hnarrow, ← Nat.add_assoc, hwide]
  split
  · exact .error _
  · exact .ok hmodify

theorem push (h : Detours home place depth wide narrow) :
    Detours home place (depth + 1) (wide.push (place + depth)).2
      (narrow.push (current home place depth)).2 where
  size_wide := by rw [size_frames_push, h.size_wide]; rfl
  size_narrow := by rw [size_frames_push, h.size_narrow]; rfl
  outer id hid := by
    have hwide := h.size_wide
    have hnarrow := h.size_narrow
    rw [frames_push, frames_push, if_neg (Nat.ne_of_lt (by omega)),
      if_neg (Nat.ne_of_lt (by omega)), h.outer id hid]
  empty := by
    have hwide := h.size_wide
    rw [frames_push, if_neg (Nat.ne_of_lt (by omega)), h.empty]
  inner level hlevel := by
    rcases Nat.lt_succ_iff_lt_or_eq.mp hlevel with hlt | rfl
    · obtain ⟨bindings, hframe, hframe'⟩ := h.inner level hlt
      have hwide := h.size_wide
      have hnarrow := h.size_narrow
      refine ⟨bindings, ?_, ?_⟩
      · rw [frames_push, if_neg (Nat.ne_of_lt (by omega)), hframe]
      · rw [frames_push, if_neg (Nat.ne_of_lt (by omega)), hframe']
    · refine ⟨{}, ?_, ?_⟩
      · rw [← h.size_wide]
        exact frames_push_self h.pool_wide _
      · rw [← h.size_narrow]
        exact frames_push_self h.pool_narrow _
  home_lt := h.home_lt
  isOpen := by
    obtain ⟨path, hpath⟩ := h.isOpen
    exact ⟨path, hpath.push _⟩
  pool_wide bindings hmem := h.pool_wide bindings (List.mem_of_mem_tail hmem)
  pool_narrow bindings hmem := h.pool_narrow bindings (List.mem_of_mem_tail hmem)

theorem pop (h : Detours home place (depth + 1) wide narrow) :
    ∃ wide' narrow', wide.pop (place + depth + 1) = .ok wide' ∧
      narrow.pop (place + depth) = .ok narrow' ∧ Detours home place depth wide' narrow' := by
  have hpositive : 0 < place := Nat.zero_lt_of_lt h.home_lt
  have hsize : wide.frames.size = place + depth + 1 + 1 := h.size_wide
  have hsize' : narrow.frames.size = place + depth + 1 := h.size_narrow
  obtain ⟨released, hwide⟩ := pop_eq_ok hsize (by omega)
  obtain ⟨released', hnarrow⟩ := pop_eq_ok hsize' (by omega)
  refine ⟨_, _, hwide, hnarrow, ?_⟩
  have hframe {id : Nat} (hid : id ≤ place + depth) :
      (wide.frames.pop)[id]? = wide.frames[id]? := by
    rw [Array.getElem?_pop, if_pos (by omega)]
  have hframe' {id : Nat} (hid : id < place + depth) :
      (narrow.frames.pop)[id]? = narrow.frames[id]? := by
    rw [Array.getElem?_pop, if_pos (by omega)]
  exact
    { size_wide := by rw [Array.size_pop]; omega
      size_narrow := by rw [Array.size_pop]; omega
      outer := fun id hid => by rw [hframe (by omega), hframe' (by omega), h.outer id hid]
      empty := by rw [hframe (Nat.le_add_right place depth), h.empty]
      inner := by
        intro level hlevel
        obtain ⟨bindings, hfound, hfound'⟩ := h.inner level (Nat.lt_succ_of_lt hlevel)
        refine ⟨bindings, ?_, ?_⟩
        · rw [hframe (by omega), hfound]
        · rw [hframe' (by omega), hfound']
      home_lt := h.home_lt
      isOpen := by
        obtain ⟨path, hpath⟩ := h.isOpen
        refine ⟨path, hpath.congr fun id hid => ?_⟩
        have hlt : id < place := Nat.lt_of_le_of_lt (hpath.le id hid) h.home_lt
        rw [hframe' (Nat.lt_of_lt_of_le hlt (Nat.le_add_right place depth))]
      pool_wide := List.forall_mem_cons.mpr ⟨rfl, h.pool_wide⟩
      pool_narrow := List.forall_mem_cons.mpr ⟨rfl, h.pool_narrow⟩ }

/-! The detour begins and ends. -/

/-- A frame that is opened is a detour as long as it binds nothing. -/
theorem of_push {frame : FrameId} (h : wide.AlikeAt frame narrow) :
    Detours frame wide.frames.size 0 (wide.push frame).2 narrow where
  size_wide := size_frames_push _ _
  size_narrow := congrArg Array.size h.frames_eq.symm
  outer id hid := by rw [frames_push, if_neg (Nat.ne_of_lt hid), h.frames_eq]
  empty := frames_push_self h.pool_left frame
  inner _ hlevel := absurd hlevel (Nat.not_lt_zero _)
  home_lt := by
    obtain ⟨path, hpath⟩ := h.isOpen
    exact hpath.lt_size frame hpath.mem_self
  isOpen := by
    obtain ⟨path, hpath⟩ := h.isOpen
    exact ⟨path, hpath.congr fun id _ => by rw [h.frames_eq]⟩
  pool_wide bindings hmem := h.pool_left bindings (List.mem_of_mem_tail hmem)
  pool_narrow := h.pool_right

theorem alike_pop (h : Detours home place 0 wide narrow) :
    AlikeAt home ⟨wide.frames.pop, {} :: wide.pool⟩ narrow := by
  have hframes : wide.frames.pop = narrow.frames := by
    apply Array.ext_getElem?
    intro id
    have hsize := h.size_wide
    have hsize' := h.size_narrow
    rw [Array.getElem?_pop]
    split
    · next hid => exact h.outer id (by omega)
    · next hid => rw [Array.getElem?_eq_none (by omega)]
  refine ⟨⟨hframes, List.forall_mem_cons.mpr ⟨rfl, h.pool_wide⟩, h.pool_narrow⟩, ?_⟩
  obtain ⟨path, hpath⟩ := h.isOpen
  exact ⟨path, hpath.congr fun id _ => by rw [hframes]⟩

end Detours

end Store

theorem World.Beside.leave {home place : Nat} {left right : World}
    (h : left.Beside (Store.Detours home place 0) right) :
    (Run.leave left).Beside (Store.AlikeAt home) right :=
  ⟨h.store.alike_pop, h.output_eq, h.clock_eq⟩

open Run

/-- What is executed on a detour keeps track of what is executed without it. -/
theorem Run.Tracks.simulation (home place rounds : Nat) :
    Simulation Eq (place + ·) (Store.current home place) (0 < ·) rounds rounds
      fun depth => Tracks (Store.Detours home place depth) where
  kind_eq := congrArg Token.kind
  pure _ := .pure
  fault _ _ fault := .stop (.fault fault)
  blame _ _ _ _ hname cause := hname ▸ .stop _
  bind := .bind
  lookup _ hname := hname ▸ .lookup fun _ _ hstores => hstores.get_eq _
  assign _ value hname := hname ▸ .changeStore fun _ _ hstores => hstores.assign _ value
  define hdepth value hname := by
    obtain ⟨depth, rfl⟩ := Nat.exists_eq_add_one.mpr hdepth
    exact hname ▸ .changeStore fun _ _ hstores => hstores.define _ value
  readClock _ := .readClock
  writeLine _ := .writeLine
  inFrame depth body body' hbody := by
    refine .inFrame (fun _ _ hstores => hstores.push) (fun left right hstores => ?_) ?_
    · rw [hstores.size_wide, hstores.size_narrow]
      exact hbody (depth + 1) (Nat.succ_pos depth)
    · intro left right left' right' hstores hinner
      rw [hstores.size_wide, hstores.size_narrow]
      exact hinner.pop
  repeatWhile htest hbody := htest.repeatWhile hbody rounds

/-- Statements that declare nothing are executed in a frame of their own as they are without it. -/
theorem Run.Tracks.inFrame_row (frame : FrameId) (rounds : Nat) {row : List Stmt}
    (hrow : ∀ statement ∈ row, statement.declared = []) :
    Tracks (Store.AlikeAt frame) (Run.inFrame frame fun inner => Stmt.executeRow rounds inner row)
      (Stmt.executeRow rounds frame row) := by
  intro left right hworld
  have hopen := hworld.store.isOpen
  have hkeeps := Stmt.executeRow_keeps rounds left.store.frames.size row
  have hpushed : World.Beside (Store.Detours frame left.store.frames.size 0)
      { left with store := (left.store.push frame).2 } right :=
    ⟨.of_push hworld.store, hworld.output_eq, hworld.clock_eq⟩
  have hends : EndsBeside (Store.Detours frame left.store.frames.size 0)
      (Stmt.executeRow rounds left.store.frames.size row
        { left with store := (left.store.push frame).2 })
      (Stmt.executeRow rounds frame row right) :=
    (Tracks.simulation frame left.store.frames.size rounds).executeRow 0 row
      (.refl Eq.refl row) (.inr hrow) hpushed
  rw [inFrame_apply hopen.size_pos hkeeps]
  generalize Stmt.executeRow rounds left.store.frames.size row _ = result at hends
  generalize Stmt.executeRow rounds frame row right = result' at hends
  cases hends with
  | ok hlast => exact .ok hlast.leave
  | error hlast => exact .error hlast.leave

/-! Braces around a statement. -/

theorem Store.Reachable.alikeAt {store : Store} (h : store.Reachable) {frame : FrameId}
    (hframe : frame < store.frames.size) : store.AlikeAt frame store :=
  ⟨⟨rfl, h.arena.pool_empty, h.arena.pool_empty⟩, h.arena.exists_path hframe⟩

theorem Node.Placed.children {node : Node} (h : node.Placed) :
    ∀ child ∈ node.children, child.Placed := by
  match node with
  | .expression value => cases value <;> simp [Node.children, Node.Placed]
  | .statement (.expression _) | .statement (.print _) => simp [Node.children, Node.Placed]
  | .statement (.declare _ none) => simp [Node.children]
  | .statement (.declare _ (some _)) => simp [Node.children, Node.Placed]
  | .statement (.block body) =>
      rw [Node.Placed, Stmt.Placed, Stmt.placedRow_iff] at h
      simpa [Node.children, Node.Placed] using h
  | .statement (.conditional _ _ none) =>
      simpa [Node.children, Node.Placed] using h.2
  | .statement (.conditional _ _ (some _)) =>
      simpa [Node.children, Node.Placed] using ⟨h.1.2, h.2.2⟩
  | .statement (.loop _ _) => simpa [Node.children, Node.Placed] using h.2

theorem Node.Placed.of_at? {path : List Nat} {node inner : Node} {scopes scopes' : Scopes}
    (h : node.Placed) (hinner : node.at? path scopes = some (inner, scopes')) : inner.Placed := by
  induction path generalizing node scopes with
  | nil =>
      cases hinner
      exact h
  | cons place path ih =>
      rw [Node.at?] at hinner
      split at hinner
      · contradiction
      · next child hchild =>
          exact ih (Node.Placed.children h child (List.mem_of_getElem? hchild)) hinner

/-- The parser reads the statement, or one of which it is a part. -/
def Stmt.Accepted (statement : Stmt) : Prop :=
  ∃ bound start finish whole path scopes,
    Parser.declaration (Parser.statement bound) bound start = .ok whole finish ∧
      (Node.statement whole).at? path [] = some (.statement statement, scopes)

theorem Stmt.Accepted.placed {statement : Stmt} (h : statement.Accepted) : statement.Placed := by
  obtain ⟨bound, start, finish, whole, path, scopes, hread, hpart⟩ := h
  obtain ⟨clause, hclause⟩ :=
    Parser.declaration_derives (Parser.statement_derives bound) bound _ _ _ hread
  have hwhole : (Node.statement whole).Placed := hclause.tree_eq ▸ hclause.fits.placed.2
  exact Node.Placed.of_at? hwhole hpart

/-- Braces around a statement that is no declaration make no difference: with them, it comes to an
end where it does without them, and in the same way. -/
theorem Stmt.Accepted.braces_transparent {statement : Stmt} (h : statement.Accepted)
    (hdeclares : statement.declares? = none) {world : World} (hworld : world.store.Reachable)
    {frame : FrameId} (hframe : frame < world.store.frames.size) :
    ((∃ result, ComesTo (fun rounds => (Stmt.block [statement]).execute rounds frame) world
        result) ↔
      ∃ result, ComesTo (fun rounds => statement.execute rounds frame) world result) ∧
    ∀ result result',
      ComesTo (fun rounds => (Stmt.block [statement]).execute rounds frame) world result →
        ComesTo (fun rounds => statement.execute rounds frame) world result' →
          EndsBeside Store.Alike result result' := by
  have hdeclared : ∀ other ∈ [statement], other.declared = [] := by
    rw [List.forall_mem_singleton, declared_eq_toList h.placed, hdeclares]
    rfl
  have hends (rounds : Nat) : EndsBeside Store.Alike
      ((Stmt.block [statement]).execute rounds frame world)
      (statement.execute rounds frame world) := by
    have hrow := Tracks.inFrame_row frame rounds hdeclared
      ⟨hworld.alikeAt hframe, rfl, rfl⟩
    have hsingle : Stmt.executeRow rounds frame [statement] = statement.execute rounds frame := by
      rw [Stmt.executeRow]
      exact bind_pure_unit
    rw [hsingle] at hrow
    rw [Stmt.execute]
    exact hrow.imp hrow.last.store.toAlike
  refine ⟨exists_comesTo_iff hends, fun result result' hresult hresult' => ?_⟩
  exact hresult.beside hends (Stmt.execute_lasts frame _) hworld.sane.size_pos hresult'

/-- The block is read from `{ var a; b; }`. -/
theorem unwinding_accepted : unwinding.Accepted := by
  let tokens : List Token := [Listing.word .leftBrace "\x7b", Listing.word .varWord "var",
    ⟨.identifier, ⟨0, 17, "a"⟩, none, 1⟩, Listing.word .semicolon ";",
    ⟨.identifier, ⟨0, 18, "b"⟩, none, 2⟩, Listing.word .semicolon ";",
    Listing.word .rightBrace "\x7d", Listing.word .endOfText ""]
  exact ⟨9, ⟨tokens, {}, false⟩, _, unwinding, [], [], rfl, rfl⟩

theorem Stmt.Accepted.braces_transparent_unwinding :
    ∃ result result', unwinding.Accepted ∧
      ComesTo (fun rounds => (Stmt.block [unwinding]).execute rounds 1) opened result ∧
      ComesTo (fun rounds => unwinding.execute rounds 1) opened result' ∧
      EndsBeside Store.Alike result result' ∧
      ∃ after, result = .error (.error (.mistake 2 (.undefinedVariable "b"))) after := by
  have hreachable : opened.store.Reachable := .push .new Nat.one_pos
  have hbraces := unwinding_accepted.braces_transparent rfl hreachable Nat.one_lt_two
  have hresult : ComesTo (fun rounds => (Stmt.block [unwinding]).execute rounds 1) opened
      ((Stmt.block [unwinding]).execute 1 1 opened) := ⟨⟨1, rfl⟩, by rintro ⟨_, ⟨⟩⟩⟩
  have hresult' : ComesTo (fun rounds => unwinding.execute rounds 1) opened
      (unwinding.execute 1 1 opened) := ⟨⟨1, rfl⟩, by rintro ⟨_, ⟨⟩⟩⟩
  exact ⟨_, _, unwinding_accepted, hresult, hresult', hbraces.2 _ _ hresult hresult', _, rfl⟩

end Treewalk
