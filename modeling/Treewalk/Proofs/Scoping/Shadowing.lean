import Treewalk.Proofs.Scoping.Laws
import Treewalk.Proofs.Scoping.Static

/-!
Shadowing. If all assignments to a name within a statement stand in blocks of the statement, behind
a declaration of the name in the list of the block, then the statement leaves the variables of that
name alone that were there before it.
-/

namespace Treewalk

namespace Node

variable {x : Symbol} {scopes : Scopes}

/-- Every assignment to the name at or below the node has a scope around it that declares the
name. -/
def Shadowed (x : Symbol) (node : Node) (scopes : Scopes) : Prop :=
  ∀ (path : List Nat) (name : Token) (value : Expr) (inner : Scopes),
    node.at? path scopes = some (.expression (.assign name value), inner) →
    name.lexeme.same x = true → (inner.home? x).isSome = true

theorem Shadowed.child {node child : Node} (h : node.Shadowed x scopes) (place : Nat)
    (hchild : node.children[place]? = some child) :
    child.Shadowed x (node.scopesWithin place scopes) := by
  intro path name value inner hinner
  refine h (place :: path) name value inner ?_
  simpa only [at?, hchild] using hinner

mutual

/-- The expressions within an expression have the scopes around it. -/
theorem Shadowed.of_mem_assigned {value : Expr} (h : (expression value).Shadowed x scopes) :
    ∀ name ∈ value.assigned, name.lexeme.same x = true → (scopes.home? x).isSome = true := by
  match value with
  | .constant _ | .var _ => simp [Expr.assigned]
  | .group inner | .unary _ inner => exact (h.child 0 rfl).of_mem_assigned
  | .binary left _ right | .logical left _ right =>
      rw [Expr.assigned, List.forall_mem_append]
      exact ⟨(h.child 0 rfl).of_mem_assigned, (h.child 1 rfl).of_mem_assigned⟩
  | .assign name value =>
      rw [Expr.assigned, List.forall_mem_cons]
      exact ⟨h [] name value scopes rfl, (h.child 0 rfl).of_mem_assigned⟩
  | .call callee _ arguments =>
      rw [Expr.assigned, List.forall_mem_append]
      refine ⟨(h.child 0 rfl).of_mem_assigned, Shadowed.of_mem_assignedRow fun argument hmem => ?_⟩
      obtain ⟨place, hplace⟩ := List.getElem?_of_mem hmem
      exact h.child (place + 1) (by simp [children, hplace])

theorem Shadowed.of_mem_assignedRow {row : List Expr}
    (h : ∀ value ∈ row, (expression value).Shadowed x scopes) :
    ∀ name ∈ Expr.assignedRow row, name.lexeme.same x = true →
      (scopes.home? x).isSome = true := by
  match row with
  | [] => simp [Expr.assignedRow]
  | first :: rest =>
      rw [List.forall_mem_cons] at h
      rw [Expr.assignedRow, List.forall_mem_append]
      exact ⟨h.1.of_mem_assigned, Shadowed.of_mem_assignedRow h.2⟩

end

end Node

namespace Store

variable {store middle later : Store} {limit frame : FrameId} {x : Symbol} {scopes : Scopes}
  {path : List FrameId}

/-- No frame on the path that binds a name is newer than the one in which it has its meaning. -/
theorem Path.le_of_find? (h : store.Path frame path) {home other : FrameId}
    (hhome : path.find? (store.bindsAt x) = some home) (hother : other ∈ path)
    (hbinds : store.bindsAt x other = true) : other ≤ home := by
  obtain ⟨-, inner, outer, rfl, hinner⟩ := List.find?_eq_some_iff_append.mp hhome
  rcases List.mem_append.mp hother with hmem | hmem
  · have hfree := hinner other hmem
    rw [hbinds] at hfree
    contradiction
  · rcases List.mem_cons.mp hmem with rfl | hmem
    · exact Nat.le_refl _
    · exact Nat.le_of_lt
        ((List.pairwise_cons.mp (List.pairwise_append.mp h.pairwise).2.1).1 other hmem)

/-- Frames from a place on are those of the scopes: if the scopes declare the name, such a frame
binds it on the way outwards. -/
structure Shelters (limit : FrameId) (x : Symbol) (scopes : Scopes) (frame : FrameId)
    (store : Store) : Prop where
  limit_le : limit ≤ store.frames.size
  outwards : ∃ path, store.Path frame path ∧ ((scopes.home? x).isSome = true →
    ∃ home ∈ path, limit ≤ home ∧ store.bindsAt x home = true)

theorem Shelters.size_pos (h : Shelters limit x scopes frame store) :
    0 < store.frames.size := by
  obtain ⟨path, hpath, -⟩ := h.outwards
  exact Nat.zero_lt_of_lt (hpath.lt_size frame hpath.mem_self)

theorem Shelters.frame_lt (h : Shelters limit x scopes frame store) :
    frame < store.frames.size := by
  obtain ⟨path, hpath, -⟩ := h.outwards
  exact hpath.lt_size frame hpath.mem_self

theorem Shelters.grow (h : Shelters limit x scopes frame store) {other : FrameId}
    {added : List Symbol} (hgrows : Grows other added store later) :
    Shelters limit x scopes frame later where
  limit_le := hgrows.size_eq ▸ h.limit_le
  outwards := by
    obtain ⟨path, hpath, hbound⟩ := h.outwards
    refine ⟨path, hgrows.path hpath, fun hhome => ?_⟩
    obtain ⟨home, hmem, hle, hbinds⟩ := hbound hhome
    exact ⟨home, hmem, hle, hgrows.bindsAt hbinds⟩

/-- A new frame is one of a new scope in which nothing is declared yet. -/
theorem Shelters.push (h : Shelters limit x scopes frame store) :
    Shelters limit x ([] :: scopes) store.frames.size (store.push frame).2 where
  limit_le := by
    rw [size_frames_push]
    exact Nat.le_succ_of_le h.limit_le
  outwards := by
    obtain ⟨path, hpath, hbound⟩ := h.outwards
    refine ⟨_, hpath.push_inner, fun hhome => ?_⟩
    have houter : (scopes.home? x).isSome = true := by
      simpa [Scopes.home?, List.findIdx?_cons] using hhome
    obtain ⟨home, hmem, hle, hbinds⟩ := hbound houter
    refine ⟨home, List.mem_cons_of_mem _ hmem, hle, ?_⟩
    rw [bindsAt_eq_isSome] at hbinds ⊢
    rwa [valueAt_push_of_lt (hpath.lt_size home hmem)]

/-- The scope of a frame has got the name that the frame has got. -/
theorem Shelters.declare {declared : List Token} {name : Token}
    (h : Shelters limit x (declared :: scopes) frame store) (hlimit : limit ≤ frame)
    (hgrows : Grows frame [name.lexeme] store later) :
    Shelters limit x ((declared ++ [name]) :: scopes) frame later where
  limit_le := (h.grow hgrows).limit_le
  outwards := by
    obtain ⟨path, hpath, hbound⟩ := (h.grow hgrows).outwards
    refine ⟨path, hpath, fun hhome => ?_⟩
    by_cases hsame : name.lexeme.same x = true
    · refine ⟨frame, hpath.mem_self, hlimit, ?_⟩
      have hbinds := hgrows.bindsAt_of_mem h.frame_lt List.mem_cons_self
      rwa [bindsAt_eq_isSome, valueAt_congr hsame, ← bindsAt_eq_isSome] at hbinds
    · refine hbound ?_
      rw [Bool.not_eq_true] at hsame
      simpa [Scopes.home?, List.findIdx?_cons, hsame] using hhome

/-- The variables of a name in older frames have the values that they had. -/
def Preserves (limit : FrameId) (x : Symbol) (store later : Store) : Prop :=
  ∀ id < limit, ∀ value, store.valueAt x id = some value → later.valueAt x id = some value

theorem Preserves.refl (limit : FrameId) (x : Symbol) (store : Store) :
    Preserves limit x store store :=
  fun _ _ _ hvalue => hvalue

theorem Preserves.trans (hfirst : Preserves limit x store middle)
    (hsecond : Preserves limit x middle later) : Preserves limit x store later :=
  fun id hid value hvalue => hsecond id hid value (hfirst id hid value hvalue)

theorem Shelters.assign (h : Shelters limit x scopes frame store) {name : Token} {value : Value}
    (hname : name.lexeme.same x = true → (scopes.home? x).isSome = true)
    (hassign : store.assign frame name value = .ok later) : Preserves limit x store later := by
  obtain ⟨path, hpath, hbound⟩ := h.outwards
  rw [assign_of_path hpath] at hassign
  cases hhome : path.find? (store.bindsAt name.lexeme) with
  | none =>
      rw [hhome] at hassign
      contradiction
  | some home =>
      rw [hhome] at hassign
      cases hassign
      intro id hid old hold
      rw [valueAt_replace, if_neg, hold]
      rintro ⟨rfl, hsame⟩
      obtain ⟨other, hmem, hle, hbinds⟩ := hbound (hname hsame)
      have hbinds' : store.bindsAt name.lexeme other = true := by
        rwa [bindsAt_eq_isSome, valueAt_congr hsame, ← bindsAt_eq_isSome]
      have hnewer := hpath.le_of_find? hhome hmem hbinds'
      exact Nat.lt_irrefl _ (Nat.lt_of_lt_of_le hid (Nat.le_trans hle hnewer))

theorem preserves_of_define (hframe : frame < store.frames.size) {name : Token} {value : Value}
    (hdefine : store.define frame name value = .ok later) : Preserves limit x store later := by
  intro id _ old hold
  rw [valueAt_of_define hframe hdefine, if_neg, hold]
  rintro ⟨rfl, hsame⟩
  obtain ⟨hbinds, -⟩ := define_ok hframe hdefine
  rw [bindsAt_eq_isSome, valueAt_congr hsame, hold] at hbinds
  contradiction

end Store

namespace Run

theorem valueAt_leave {world : World} {id : FrameId}
    (hid : id + 1 < world.store.frames.size) (name : Symbol) :
    (leave world).store.valueAt name id = world.store.valueAt name id := by
  rw [Store.valueAt, Store.valueAt, leave, Array.getElem?_pop, if_pos (Nat.lt_sub_of_add_lt hid)]

variable {α β : Type} {limit frame : FrameId} {x : Symbol} {scopes : Scopes}

/-- A run in a frame within the scopes leaves the variables of a name in older frames alone. -/
def Protects (limit : FrameId) (x : Symbol) (scopes : Scopes) (frame : FrameId)
    (run : Run α) : Prop :=
  ∀ world : World, Store.Shelters limit x scopes frame world.store →
    Store.Shelters limit x scopes frame (last (run world)).store ∧
      Store.Preserves limit x world.store (last (run world)).store

theorem Protects.of_eq {run : Run α} (h : ∀ world, (last (run world)).store = world.store) :
    Protects limit x scopes frame run := by
  intro world hshelters
  rw [h]
  exact ⟨hshelters, .refl _ _ _⟩

theorem Protects.bind {first : Run α} {next : α → Run β}
    (hfirst : Protects limit x scopes frame first)
    (hnext : ∀ value, Protects limit x scopes frame (next value)) :
    Protects limit x scopes frame (first >>= next) := by
  intro world hshelters
  obtain ⟨hmiddle, hkept⟩ := hfirst world hshelters
  cases hrun : first world with
  | error reason after =>
      rw [hrun] at hmiddle hkept
      rw [bind_eq_of_error hrun]
      exact ⟨hmiddle, hkept⟩
  | ok value after =>
      rw [hrun] at hmiddle hkept
      rw [bind_eq_of_ok hrun]
      obtain ⟨hlast, hkept'⟩ := hnext value after hmiddle
      exact ⟨hlast, hkept.trans hkept'⟩

theorem Protects.changeStore {change : Store → Except Stop Store}
    (h : ∀ store later, Store.Shelters limit x scopes frame store → change store = .ok later →
      Store.Shelters limit x scopes frame later ∧ Store.Preserves limit x store later) :
    Protects limit x scopes frame (Run.changeStore change) := by
  intro world hshelters
  rw [changeStore_apply]
  cases hchange : change world.store with
  | ok later => exact h _ _ hshelters hchange
  | error reason => exact ⟨hshelters, .refl _ _ _⟩

theorem Protects.composed (limit : FrameId) (x : Symbol) (scopes : Scopes) (frame : FrameId) :
    Composed fun run => Protects limit x scopes frame run where
  pure _ := .of_eq fun _ => rfl
  stop _ := .of_eq fun _ => rfl
  bind := .bind
  lookup home name := .of_eq fun world => by
    rw [lookup_apply]
    cases world.store.get home name <;> rfl
  readClock := .of_eq fun _ => rfl

theorem Protects.assign {name : Token}
    (hname : name.lexeme.same x = true → (scopes.home? x).isSome = true) (value : Value) :
    Protects limit x scopes frame (Run.assign frame name value) :=
  .changeStore fun _ _ hshelters hassign =>
    ⟨hshelters.grow (Store.grows_of_assign hassign frame), hshelters.assign hname hassign⟩

theorem Protects.define (name : Token) (value : Value) :
    Protects limit x scopes frame (Run.define frame name value) :=
  .changeStore fun _ _ hshelters hdefine =>
    ⟨hshelters.grow (Store.grows_of_define hdefine),
      Store.preserves_of_define hshelters.frame_lt hdefine⟩

theorem Protects.writeLine (value : Value) :
    Protects limit x scopes frame (Run.writeLine value) :=
  .of_eq fun world => last_writeLine_store value world

/-- What a run in a new frame leaves alone, it leaves alone with the frame opened and released. -/
theorem Protects.inFrame {body : FrameId → Run Unit} {names : List Symbol}
    (hgrows : ∀ inner, Grows inner names (body inner))
    (hbody : ∀ inner, limit ≤ inner → ∀ world : World,
      Store.Shelters limit x ([] :: scopes) inner world.store →
      Store.Preserves limit x world.store (last (body inner world)).store) :
    Protects limit x scopes frame (Run.inFrame frame body) := by
  intro world hshelters
  have hsize := hshelters.size_pos
  have hframe : Grows frame [] (Run.inFrame frame body) := .inFrame hgrows frame
  refine ⟨hshelters.grow (hframe.last_of_nil hsize), ?_⟩
  have hkept := hbody _ hshelters.limit_le
    { world with store := (world.store.push frame).2 } hshelters.push
  have hkeeps := (hgrows world.store.frames.size).keeps
    { world with store := (world.store.push frame).2 } (by simp)
  rw [Store.size_frames_push] at hkeeps
  rw [inFrame_apply hsize (hgrows _).keeps, last_mapWorld]
  generalize last (body _ _) = after at hkept hkeeps
  intro id hid value hvalue
  have hopen : id < world.store.frames.size := Nat.lt_of_lt_of_le hid hshelters.limit_le
  have hinner := hkept id hid value (by rwa [Store.valueAt_push_of_lt hopen])
  rwa [valueAt_leave (by rw [hkeeps]; exact Nat.succ_lt_succ hopen)]

end Run

variable {limit : FrameId} {x : Symbol}

theorem Expr.evaluate_protects {frame : FrameId} {scopes : Scopes} {value : Expr}
    (h : (Node.expression value).Shadowed x scopes) :
    Run.Protects limit x scopes frame (value.evaluate frame) :=
  (Run.Protects.composed limit x scopes frame).evaluate frame value
    fun name hname => .assign (h.of_mem_assigned name hname)

theorem Expr.holds_protects {frame : FrameId} {scopes : Scopes} {condition : Expr}
    (h : (Node.expression condition).Shadowed x scopes) :
    Run.Protects limit x scopes frame (condition.holds frame) :=
  (Run.Protects.composed limit x scopes frame).holds frame condition
    fun name hname => .assign (h.of_mem_assigned name hname)

namespace Stmt

mutual

theorem execute_protects (rounds : Nat) {frame : FrameId} {scopes : Scopes} {statement : Stmt}
    (h : (Node.statement statement).Shadowed x scopes) :
    Run.Protects limit x scopes frame (statement.execute rounds frame) := by
  have hcomposed := Run.Protects.composed limit x scopes frame
  match statement with
  | .expression value =>
      rw [Stmt.execute]
      exact (Expr.evaluate_protects (h.child 0 rfl)).bind fun _ => hcomposed.pure _
  | .print value =>
      rw [Stmt.execute]
      exact (Expr.evaluate_protects (h.child 0 rfl)).bind fun value => .writeLine value
  | .declare name none =>
      rw [Stmt.execute]
      exact .define name _
  | .declare name (some initial) =>
      rw [Stmt.execute]
      exact (Expr.evaluate_protects (h.child 0 rfl)).bind fun value => .define name value
  | .block body =>
      rw [Stmt.execute]
      refine .inFrame (fun inner => Stmt.executeRow_grows rounds inner body) ?_
      intro inner hinner world hshelters
      refine executeRow_preserves rounds hinner (fun place statement hstatement => ?_) world
        hshelters
      exact h.child place (by simp [Node.children, hstatement])
  | .conditional condition consequent none =>
      rw [Stmt.execute]
      refine (Expr.holds_protects (h.child 0 rfl)).bind fun holds => ?_
      cases holds with
      | true => exact execute_protects rounds (h.child 1 rfl)
      | false => exact hcomposed.pure ()
  | .conditional condition consequent (some alternative) =>
      rw [Stmt.execute]
      refine (Expr.holds_protects (h.child 0 rfl)).bind fun holds => ?_
      cases holds with
      | true => exact execute_protects rounds (h.child 1 rfl)
      | false => exact execute_protects rounds (h.child 2 rfl)
  | .loop condition body =>
      rw [Stmt.execute]
      exact hcomposed.repeatWhile (Expr.holds_protects (h.child 0 rfl))
        (execute_protects rounds (h.child 1 rfl)) rounds

/-- The statements of a block, of which those before have declared some names. -/
theorem executeRow_preserves (rounds : Nat) {frame : FrameId} {scopes : Scopes}
    {row : List Stmt} {declared : List Token} (hlimit : limit ≤ frame)
    (h : ∀ place statement, row[place]? = some statement →
      (Node.statement statement).Shadowed x
        ((declared ++ (row.take place).filterMap Stmt.declares?) :: scopes))
    (world : World)
    (hshelters : Store.Shelters limit x (declared :: scopes) frame world.store) :
    Store.Preserves limit x world.store
      (Run.last (Stmt.executeRow rounds frame row world)).store := by
  match row with
  | [] => exact .refl _ _ _
  | first :: rest =>
      have hfirst := h 0 first rfl
      rw [List.take_zero, List.filterMap_nil, List.append_nil] at hfirst
      obtain ⟨hmiddle, hkept⟩ :=
        execute_protects rounds hfirst world hshelters
      rw [Stmt.executeRow]
      cases hrun : first.execute rounds frame world with
      | error reason after =>
          rw [hrun] at hkept
          rw [Run.bind_eq_of_error hrun]
          exact hkept
      | ok _ after =>
          rw [hrun] at hmiddle hkept
          rw [Run.bind_eq_of_ok hrun]
          have hrest : Store.Shelters limit x ((declared ++ first.declares?.toList) :: scopes)
              frame after.store := by
            cases first with
            | declare name initial =>
                exact hshelters.declare hlimit (declare_grows hshelters.size_pos hrun)
            | expression | print | block | conditional | loop =>
                simpa [declares?, Run.last] using hmiddle
          refine hkept.trans (executeRow_preserves rounds hlimit ?_ after hrest)
          intro place statement hstatement
          have hlater := h (place + 1) statement hstatement
          rwa [List.take_succ_cons, declares_cons, ← List.append_assoc] at hlater

end

/-- Shadowing never changes an outer variable. Where every assignment to a name stands, within the
statement, in a block that has declared the name before, all variables of that name that there were
have the values that they had, however the statement ends. -/
theorem execute_shadowed {statement : Stmt} (h : (Node.statement statement).Shadowed x [])
    {world : World} (hreachable : world.store.Reachable) {frame : FrameId}
    (hframe : frame < world.store.frames.size) (rounds : Nat) {id : FrameId} {value : Value}
    (hvalue : world.store.valueAt x id = some value) :
    (Run.last (statement.execute rounds frame world)).store.valueAt x id = some value := by
  obtain ⟨path, hpath⟩ := hreachable.arena.exists_path hframe
  have hshelters : Store.Shelters world.store.frames.size x [] frame world.store :=
    ⟨Nat.le_refl _, path, hpath, by simp [Scopes.home?]⟩
  have hid : id < world.store.frames.size := by
    by_contra hclosed
    rw [Store.valueAt, Array.getElem?_eq_none (Nat.le_of_not_lt hclosed)] at hvalue
    contradiction
  exact (execute_protects rounds h world hshelters).2 id hid value hvalue

/-- A block that declares a variable, assigns to it and then reads another, which there is not. -/
def shadowing : Stmt :=
  .block [.declare Store.someName none,
    .expression (.assign Store.someName (.constant (.boolean true))),
    .expression (.var ⟨.identifier, ⟨0, 18, "b"⟩, none, 2⟩)]

theorem shadowing_shadowed : (Node.statement shadowing).Shadowed Store.someName.lexeme [] := by
  rintro path name value inner h -
  match path with
  | [] => simp [Node.at?, shadowing] at h
  | [0] | [1] | [2] => simp [Node.at?, Node.children, shadowing] at h
  | [1, 0] =>
      simp only [Node.at?] at h
      cases h
      rfl
  | 0 :: _ :: _ | 2 :: 0 :: _ :: _ | [1, 0, 0] | 1 :: 0 :: 0 :: _ :: _ =>
      simp [Node.at?, Node.children, shadowing] at h

theorem execute_shadowed_unwinding :
    let world := Run.last ((Stmt.declare Store.someName none).execute 1 1 opened)
    world.store.valueAt Store.someName.lexeme 1 = some .nil ∧
      (∃ after, shadowing.execute 1 1 world =
        .error (.error (.mistake 2 (.undefinedVariable "b"))) after) ∧
      (Run.last (shadowing.execute 1 1 world)).store.valueAt Store.someName.lexeme 1 =
        some .nil := by
  intro world
  have hopened : opened.store.Reachable := .push .new Nat.one_pos
  have hreachable : world.store.Reachable := .execute 1 1 _ hopened
  have hframe : 1 < world.store.frames.size := Nat.one_lt_two
  have hvalue : world.store.valueAt Store.someName.lexeme 1 = some .nil := rfl
  exact ⟨hvalue, ⟨_, rfl⟩, execute_shadowed shadowing_shadowed hreachable hframe 1 hvalue⟩

end Stmt

end Treewalk
