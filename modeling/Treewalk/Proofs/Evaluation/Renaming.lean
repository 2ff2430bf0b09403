import Treewalk.Proofs.Evaluation.Appending
import Treewalk.Proofs.Scoping.Renaming

/-!
Renaming a variable of a block. The runs of the block, with the variable renamed and without, go
side by side while the frame of the block binds the other name. That frame is released where the
block ends, so that nothing is left of the renaming.
-/

namespace Treewalk

open Run

/-! Expressions with other names. -/

/-- In one run, a name is what another is in the other run. -/
structure Run.Exchanges (stores : Store → Store → Prop) (frame : FrameId) (name other : Token) :
    Prop where
  lookup : Tracks stores (Run.lookup frame name) (Run.lookup frame other)
  assign : ∀ value, Tracks stores (Run.assign frame name value) (Run.assign frame other value)

namespace Expr

variable {stores : Store → Store → Prop} {frame : FrameId} {change : Token → Token}

mutual

theorem evaluate_mapNames (value : Expr)
    (h : ∀ name ∈ value.names, Exchanges stores frame name (change name)) :
    Tracks stores (value.evaluate frame) ((value.mapNames change).evaluate frame) := by
  match value with
  | .constant _ => exact .pure _
  | .group inner =>
      rw [mapNames, evaluate, evaluate]
      exact inner.evaluate_mapNames h
  | .unary _ operand =>
      rw [mapNames, evaluate, evaluate]
      exact (operand.evaluate_mapNames h).bind fun _ => .ofExcept _
  | .binary left _ right =>
      rw [names, List.forall_mem_append] at h
      rw [mapNames, evaluate, evaluate]
      exact (left.evaluate_mapNames h.1).bind fun _ =>
        (right.evaluate_mapNames h.2).bind fun _ => .ofExcept _
  | .logical left _ right =>
      rw [names, List.forall_mem_append] at h
      rw [mapNames, evaluate, evaluate]
      apply (left.evaluate_mapNames h.1).bind
      intro _
      split
      · exact .pure _
      · exact right.evaluate_mapNames h.2
  | .var name =>
      rw [mapNames, evaluate, evaluate]
      exact (h name List.mem_cons_self).lookup
  | .assign name value =>
      rw [names, List.forall_mem_cons] at h
      rw [mapNames, evaluate, evaluate]
      exact (value.evaluate_mapNames h.2).bind fun value =>
        (h.1.assign value).bind fun _ => .pure _
  | .call callee closing arguments =>
      rw [names, List.forall_mem_append] at h
      rw [mapNames, evaluate, evaluate]
      exact (callee.evaluate_mapNames h.1).bind fun callee =>
        (evaluateRow_mapNames arguments h.2).bind fun arguments =>
          .call callee closing arguments

theorem evaluateRow_mapNames (row : List Expr)
    (h : ∀ name ∈ namesRow row, Exchanges stores frame name (change name)) :
    Tracks stores (evaluateRow frame row) (evaluateRow frame (mapNamesRow change row)) := by
  match row with
  | [] => exact .pure _
  | first :: rest =>
      rw [namesRow, List.forall_mem_append] at h
      rw [mapNamesRow, evaluateRow, evaluateRow]
      exact (first.evaluate_mapNames h.1).bind fun _ =>
        (evaluateRow_mapNames rest h.2).bind fun _ => .pure _

end

theorem holds_mapNames (condition : Expr)
    (h : ∀ name ∈ condition.names, Exchanges stores frame name (change name)) :
    Tracks stores (condition.holds frame) ((condition.mapNames change).holds frame) :=
  (condition.evaluate_mapNames h).bind fun _ => .pure _

end Expr

/-! Within the block. -/

variable {x y : Symbol} {home frame : FrameId} {hidden : Bool}

theorem Run.Exchanges.within {name : Token} (hname : name.lexeme.same y = false) :
    Exchanges (Store.Renamed x y home hidden frame) frame name (name.within x y hidden) where
  lookup := .lookup fun left _ hstores => by
    obtain ⟨hinside, rfl⟩ := hstores
    exact hinside.get_rename hname
  assign value := .changeStore fun left _ hstores => by
    obtain ⟨hinside, rfl⟩ := hstores
    exact (hinside.assign_rename hname value).imp fun later _ hassign hmoved =>
      ⟨hinside.grow_of_nil (Store.grows_of_assign hassign frame), hmoved⟩

theorem Run.Exchanges.forall_within {names : List Token}
    (hnames : ∀ name ∈ names, name.lexeme.same y = false) :
    ∀ name ∈ names, Exchanges (Store.Renamed x y home hidden frame) frame name
      (name.within x y hidden) :=
  fun name hname => .within (hnames name hname)

/-- A run that declares nothing in its frame leaves the way to the block as it was. -/
theorem Run.Leads.tracks {α : Type} {run run' : Run α}
    (h : Leads (Store.Renamed x y home hidden frame) (Store.Moved home x y) run run')
    (hgrows : Run.Grows frame [] run) :
    Tracks (Store.Renamed x y home hidden frame) run run' := by
  intro left right hworld
  have hinside := hworld.store.inside
  have hkept := hgrows.last_of_nil hinside.size_pos
  exact (h hworld).imp ⟨hinside.grow_of_nil hkept, (h hworld).last.store⟩

theorem Run.Leads.inFrame {body body' : FrameId → Run Unit} (hkeeps : ∀ inner, Keeps (body inner))
    (hkeeps' : ∀ inner, Keeps (body' inner))
    (hbody : ∀ inner, inner ≠ home →
      Leads (Store.Renamed x y home hidden inner) (Store.Moved home x y) (body inner)
        (body' inner)) :
    Leads (Store.Renamed x y home hidden frame) (Store.Moved home x y)
      (Run.inFrame frame body) (Run.inFrame frame body') := by
  intro left right hworld
  obtain ⟨hinside, hmoved⟩ := hworld.store
  rw [Store.Moved] at hmoved
  have hsize : right.store.frames.size = left.store.frames.size := by
    rw [hmoved, Store.rename, Store.size_frames_modify]
  have hpushed : World.Beside (Store.Renamed x y home hidden left.store.frames.size)
      { left with store := (left.store.push frame).2 }
      { right with store := (right.store.push frame).2 } :=
    { hworld with
      store := ⟨hinside.push, by
        rw [Store.Moved, hmoved, Store.rename_push hinside.home_lt]⟩ }
  rw [inFrame_apply hinside.size_pos (hkeeps _),
    inFrame_apply (hsize ▸ hinside.size_pos) (hkeeps' _), hsize]
  refine (hbody _ (Nat.ne_of_gt hinside.home_lt) hpushed).change fun last last' hlast => ?_
  refine { hlast with store := ?_ }
  have hlast : last'.store = last.store.rename home x y := hlast.store
  rw [leave, leave, hlast]
  exact Store.rename_pop last.store home x y

theorem Run.Leads.define {name : Token} (hx : frame = home → name.lexeme.same x = false)
    (hy : name.lexeme.same y = false) (value : Value) :
    Leads (Store.Renamed x y home hidden frame) (Store.Moved home x y)
      (Run.define frame name value) (Run.define frame name value) :=
  .changeStore (fun _ _ hstores => hstores.moved) fun left _ hstores => by
    obtain ⟨hinside, rfl⟩ := hstores
    exact hinside.define_rename hx hy value

namespace Stmt

theorem Placed.declares_eq_false {statement : Stmt} (h : statement.Placed)
    (hdeclared : statement.declared = []) (x : Symbol) : statement.declares x = false := by
  rw [declared_eq_toList h, Option.toList_eq_nil_iff] at hdeclared
  rw [declares, hdeclared]
  rfl

mutual

/-- A statement of the block, or of a block within, that does not declare the variable again in the
frame of the block. -/
theorem execute_leads (rounds : Nat) {frame : FrameId} {hidden : Bool} (statement : Stmt)
    (hplaced : statement.Placed)
    (hnames : ∀ name ∈ statement.names, name.lexeme.same y = false)
    (hdeclares : frame = home → statement.declares x = false) :
    Leads (Store.Renamed x y home hidden frame) (Store.Moved home x y)
      (statement.execute rounds frame)
      ((statement.mapFree x (Token.within x y hidden)).execute rounds frame) := by
  have hmoved (left right : Store) (hstores : Store.Renamed x y home hidden frame left right) :
      Store.Moved home x y left right := hstores.moved
  match statement with
  | .expression value =>
      rw [mapFree, execute, execute]
      exact Leads.bind (value.evaluate_mapNames (.forall_within hnames)) hmoved
        fun _ => Leads.imp (Tracks.pure _) hmoved
  | .print value =>
      rw [mapFree, execute, execute]
      exact Leads.bind (value.evaluate_mapNames (.forall_within hnames)) hmoved
        fun value => Leads.imp (Tracks.writeLine value) hmoved
  | .declare name none =>
      rw [mapFree, execute]
      exact .define hdeclares (hnames name List.mem_cons_self) _
  | .declare name (some initial) =>
      rw [names, List.forall_mem_cons] at hnames
      rw [mapFree, execute, execute]
      exact Leads.bind (initial.evaluate_mapNames (.forall_within hnames.2)) hmoved
        fun value => .define hdeclares hnames.1 value
  | .block body =>
      rw [mapFree, execute, execute]
      exact .inFrame (fun _ => executeRow_keeps rounds _ _) (fun _ => executeRow_keeps rounds _ _)
        fun inner hinner => executeRow_leads rounds body hplaced hnames fun h => absurd h hinner
  | .conditional condition consequent none =>
      rw [names, List.forall_mem_append] at hnames
      rw [mapFree, execute, execute]
      refine Leads.bind (condition.holds_mapNames (.forall_within hnames.1)) hmoved fun holds => ?_
      cases holds with
      | true =>
          exact consequent.execute_leads rounds hplaced.2 hnames.2
            fun _ => hplaced.2.declares_eq_false hplaced.1 x
      | false => exact Leads.imp (Tracks.pure _) hmoved
  | .conditional condition consequent (some alternative) =>
      rw [names, List.forall_mem_append, List.forall_mem_append] at hnames
      rw [mapFree, execute, execute]
      refine Leads.bind (condition.holds_mapNames (.forall_within hnames.1)) hmoved fun holds => ?_
      cases holds with
      | true =>
          exact consequent.execute_leads rounds hplaced.1.2 hnames.2.1
            fun _ => hplaced.1.2.declares_eq_false hplaced.1.1 x
      | false =>
          exact alternative.execute_leads rounds hplaced.2.2 hnames.2.2
            fun _ => hplaced.2.2.declares_eq_false hplaced.2.1 x
  | .loop condition body =>
      rw [names, List.forall_mem_append] at hnames
      rw [mapFree, execute, execute]
      have hgrows := body.execute_grows rounds frame
      rw [hplaced.1] at hgrows
      have hbody : Leads (Store.Renamed x y home hidden frame) (Store.Moved home x y) _ _ :=
        body.execute_leads rounds hplaced.2 hnames.2
          fun _ => hplaced.2.declares_eq_false hplaced.1 x
      exact Leads.imp ((condition.holds_mapNames (.forall_within hnames.1)).repeatWhile
        (hbody.tracks hgrows) rounds) hmoved

theorem executeRow_leads (rounds : Nat) {frame : FrameId} {hidden : Bool} (row : List Stmt)
    (hplaced : PlacedRow row)
    (hnames : ∀ name ∈ namesRow row, name.lexeme.same y = false)
    (hdeclares : frame = home → ∀ statement ∈ row, statement.declares x = false) :
    Leads (Store.Renamed x y home hidden frame) (Store.Moved home x y)
      (executeRow rounds frame row)
      (executeRow rounds frame (mapFreeRow x (Token.within x y hidden) row)) := by
  match row with
  | [] => exact Leads.imp (Tracks.pure _) fun _ _ hstores => Store.Renamed.moved hstores
  | first :: rest =>
      rw [namesRow, List.forall_mem_append] at hnames
      simp only [List.forall_mem_cons, imp_and] at hdeclares
      rw [mapFreeRow, executeRow, executeRow, Token.within_or]
      intro left right hworld
      have hinside := hworld.store.inside
      have hfirst := first.execute_leads rounds hplaced.1 hnames.1 hdeclares.1 hworld
      refine hfirst.bind (fun _ _ => id) fun _ middle middle' hrun hmiddle => ?_
      have hgrows := hplaced.1.grows hinside.size_pos hrun
      exact executeRow_leads rounds rest hplaced.2 hnames.2 hdeclares.2
        { hmiddle with
          store := ⟨hinside.executed hnames.1 hdeclares.1 hgrows, hmiddle.store⟩ }

end

end Stmt

/-! The block itself. -/

theorem Run.Grows.begins {α : Type} {run : Run α} {names : List Symbol}
    (hgrows : Grows home names run) (hx : ∀ name ∈ names, name.same x = false)
    (hy : ∀ name ∈ names, name.same y = false) : Tracks (Store.Begins x y home) run run := by
  intro left right hworld
  obtain ⟨hfresh, hstore⟩ := hworld.store
  obtain rfl := hworld.eq hstore
  obtain ⟨added, hadded, hkept⟩ := hgrows _ hfresh.isOpen.size_pos
  exact .refl ⟨hfresh.grow hkept (fun name hname => hx name (hadded hname))
    (fun name hname => hy name (hadded hname)), rfl⟩

theorem Run.Leads.begin {name : Token} (hx : name.lexeme.same x = true)
    (hy : name.lexeme.same y = false) (value : Value) :
    Leads (Store.Begins x y home) (Store.Renamed x y home false home)
      (Run.define home name value) (Run.define home (name.renamed x y) value) := by
  intro left right hworld
  obtain ⟨hfresh, hstore⟩ := hworld.store
  obtain rfl := hworld.eq hstore
  obtain ⟨later, later', hdefine, hdefine', hrenamed⟩ := hfresh.define hx hy value
  rw [Run.define, Run.define, changeStore_apply, changeStore_apply, hdefine, hdefine']
  exact .ok ⟨hrenamed, rfl, rfl⟩

namespace Stmt

theorem Placed.declares?_of_mem {statement : Stmt} (h : statement.Placed) {name : Token}
    (hname : name ∈ statement.declared) : statement.declares? = some name := by
  rwa [declared_eq_toList h, Option.mem_toList] at hname

theorem mem_declared_row {row : List Stmt} (hplaced : ∀ statement ∈ row, statement.Placed)
    {name : Symbol} (hname : name ∈ (row.flatMap declared).map Token.lexeme) :
    ∃ statement ∈ row, ∃ token, statement.declares? = some token ∧ token.lexeme = name := by
  obtain ⟨token, htoken, rfl⟩ := List.mem_map.mp hname
  obtain ⟨statement, hstatement, htoken⟩ := List.mem_flatMap.mp htoken
  exact ⟨statement, hstatement, token,
    (hplaced statement hstatement).declares?_of_mem htoken, rfl⟩

theorem executeRow_begins {row : List Stmt} (hplaced : ∀ statement ∈ row, statement.Placed)
    (hdeclares : ∀ statement ∈ row, statement.declares x = false)
    (hnames : ∀ name ∈ row.flatMap names, name.lexeme.same y = false) (rounds : Nat) :
    Tracks (Store.Begins x y home) (executeRow rounds home row) (executeRow rounds home row) := by
  refine (executeRow_grows rounds home row).begins ?_ ?_
  · intro other hother
    obtain ⟨statement, hmem, token, htoken, rfl⟩ := mem_declared_row hplaced hother
    have hx := hdeclares statement hmem
    rwa [declares, htoken] at hx
  · intro other hother
    obtain ⟨statement, hmem, token, htoken, rfl⟩ := mem_declared_row hplaced hother
    exact hnames token (List.mem_flatMap.mpr ⟨statement, hmem, mem_names_of_declares? htoken⟩)

theorem RenamesRow.leads {body body' : List Stmt} (h : RenamesRow x y body body')
    (hplaced : PlacedRow body) (rounds : Nat) :
    Leads (Store.Begins x y home) (Store.Moved home x y) (executeRow rounds home body)
      (executeRow rounds home body') := by
  cases h with
  | @behind before after name initial hname hdeclares hnames =>
      have hmoved (left right : Store) (hstores : left.Begins x y home right) :
          left.Moved home x y right := hstores.moved
      rw [placedRow_iff, List.forall_mem_append, List.forall_mem_cons] at hplaced
      rw [List.forall_mem_append] at hdeclares
      simp only [namesRow_eq_flatMap, List.flatMap_append, List.flatMap_cons,
        List.forall_mem_append] at hnames
      have hdeclare (value : Value) : Leads (Store.Begins x y home) (Store.Moved home x y)
          (Run.define home name value >>= fun _ => executeRow rounds home after)
          (Run.define home (name.renamed x y) value >>= fun _ =>
            executeRow rounds home (mapFreeRow x (Token.renamed x y) after)) := by
        have hy : name.lexeme.same y = false :=
          hnames.2.1 name (mem_names_of_declares? rfl)
        refine (Leads.begin hname hy value).bind (fun _ _ => Store.Renamed.moved) fun _ => ?_
        refine executeRow_leads rounds after (placedRow_iff.mpr hplaced.2.2) ?_ fun _ => hdeclares.2
        rw [namesRow_eq_flatMap]
        exact hnames.2.2
      rw [executeRow_append, executeRow_append]
      refine Leads.bind (executeRow_begins hplaced.1 hdeclares.1 hnames.1 rounds) hmoved
        fun _ => ?_
      rw [executeRow, executeRow]
      cases initial with
      | none =>
          rw [execute, execute]
          exact hdeclare _
      | some initial =>
          have hinitial : Run.Grows home [] (initial.evaluate home) := initial.evaluate_grows home
          rw [execute, execute, bind_assoc, bind_assoc]
          exact Leads.bind (hinitial.begins nofun nofun) hmoved hdeclare

end Stmt

/-! Around the block. -/

/-- The frame is open with all frames outwards from it, and released bindings are empty. -/
structure Store.Clean (frame : FrameId) (store : Store) : Prop where
  isOpen : store.Open frame
  pool_empty : ∀ bindings ∈ store.pool, bindings = {}

namespace Run

variable {α β : Type}

/-- In an open frame, the two runs do the same. -/
def SameAt (frame : FrameId) (run run' : Run α) : Prop :=
  ∀ world : World, world.store.Clean frame → run' world = run world

theorem SameAt.refl (frame : FrameId) (run : Run α) : SameAt frame run run :=
  fun _ _ => rfl

theorem SameAt.bind {first first' : Run α} {next next' : α → Run β} {names : List Symbol}
    (hfirst : SameAt frame first first') (hgrows : Grows frame names first)
    (hnext : ∀ value, SameAt frame (next value) (next' value)) :
    SameAt frame (first >>= next) (first' >>= next') := by
  intro world hclean
  have hrun' := hfirst world hclean
  obtain ⟨added, -, hkept⟩ := hgrows world hclean.isOpen.size_pos
  cases hrun : first world with
  | error reason after =>
      rw [hrun] at hrun'
      rw [bind_eq_of_error hrun, bind_eq_of_error hrun']
  | ok value after =>
      rw [hrun] at hrun' hkept
      rw [bind_eq_of_ok hrun, bind_eq_of_ok hrun']
      exact hnext value after ⟨hclean.isOpen.grow hkept, hkept.pool hclean.pool_empty⟩

theorem SameAt.inFrame {body body' : FrameId → Run Unit}
    (hbody : ∀ inner, SameAt inner (body inner) (body' inner)) :
    SameAt frame (Run.inFrame frame body) (Run.inFrame frame body') := by
  intro world hclean
  have hpushed : (world.store.push frame).2.Clean world.store.frames.size :=
    ⟨hclean.isOpen.push, fun bindings hmem =>
      hclean.pool_empty bindings (List.mem_of_mem_tail hmem)⟩
  simp only [Run.inFrame, Store.push_fst]
  rw [hbody _ { world with store := (world.store.push frame).2 } hpushed]

theorem SameAt.repeatWhile {test : Run Bool} {body body' : Run Unit} {names : List Symbol}
    (htest : Grows frame names test) (hbody : SameAt frame body body')
    (hgrows : Grows frame names body) (rounds : Nat) :
    SameAt frame (Run.repeatWhile test body rounds) (Run.repeatWhile test body' rounds) := by
  induction rounds with
  | zero => exact .refl frame _
  | succ rounds ih =>
      refine (SameAt.refl frame test).bind htest fun holds => ?_
      cases holds with
      | true => exact hbody.bind hgrows fun _ => ih
      | false => exact .refl frame _

theorem EndsBeside.leave_eq {result result' : EStateM.Result Stop World α}
    (h : EndsBeside (Store.Moved home x y) result result')
    (hhome : (Run.last result).store.frames.size = home + 1) :
    mapWorld Run.leave result' = mapWorld Run.leave result := by
  have hleave {left right : World} (hlast : left.Beside (Store.Moved home x y) right)
      (hsize : left.store.frames.size = home + 1) : Run.leave right = Run.leave left := by
    have hstore : right.store = left.store.rename home x y := hlast.store
    rw [Run.leave, Run.leave, hstore, Store.pop_rename hsize, hlast.output_eq, hlast.clock_eq]
    rfl
  cases h with
  | @ok value _ _ hlast => exact congrArg (EStateM.Result.ok value) (hleave hlast hhome)
  | @error reason _ _ hlast => exact congrArg (EStateM.Result.error reason) (hleave hlast hhome)

end Run

namespace Stmt

theorem RenamesRow.same {body body' : List Stmt} (h : RenamesRow x y body body')
    (hplaced : PlacedRow body) (rounds : Nat) (frame : FrameId) :
    SameAt frame ((block body).execute rounds frame) ((block body').execute rounds frame) := by
  intro world hclean
  have hopen := hclean.isOpen.size_pos
  have hfresh : (world.store.push frame).2.Fresh x y world.store.frames.size :=
    .of_push hclean.isOpen hclean.pool_empty
  have hpushed : World.Beside (Store.Begins x y world.store.frames.size)
      { world with store := (world.store.push frame).2 }
      { world with store := (world.store.push frame).2 } := ⟨⟨hfresh, rfl⟩, rfl, rfl⟩
  have hends := h.leads hplaced rounds hpushed
  have hkeeps := executeRow_keeps rounds world.store.frames.size body
  have hsize := hkeeps { world with store := (world.store.push frame).2 } (by simp)
  have hkeeps' := executeRow_keeps rounds world.store.frames.size body'
  rw [execute, execute, inFrame_apply hopen hkeeps', inFrame_apply hopen hkeeps]
  exact hends.leave_eq (hsize.trans (Store.size_frames_push _ _))

theorem Renames.same {statement statement' : Stmt} (h : statement.Renames x y statement')
    (hplaced : statement.Placed) (rounds : Nat) (frame : FrameId) :
    SameAt frame (statement.execute rounds frame) (statement'.execute rounds frame) := by
  induction h generalizing frame with
  | block hrow => exact hrow.same hplaced rounds frame
  | @item before after statement statement' _ ih =>
      have hbody : ∀ other ∈ before ++ statement :: after, other.Placed := placedRow_iff.mp hplaced
      have hstatement := hbody statement (by simp)
      rw [execute, execute]
      refine .inFrame fun inner => ?_
      rw [executeRow_append, executeRow_append, executeRow, executeRow]
      refine (SameAt.refl inner _).bind (executeRow_grows rounds inner before) fun _ => ?_
      exact (ih hstatement inner).bind (statement.execute_grows rounds inner)
        fun _ => .refl inner _
  | @consequent condition _ _ alternative _ ih =>
      have hcondition : Grows frame [] (condition.holds frame) := condition.holds_grows frame
      cases alternative with
      | none =>
          rw [execute, execute]
          refine (SameAt.refl frame _).bind hcondition fun holds => ?_
          cases holds with
          | true => exact ih hplaced.2 frame
          | false => exact .refl frame _
      | some alternative =>
          rw [execute, execute]
          refine (SameAt.refl frame _).bind hcondition fun holds => ?_
          cases holds with
          | true => exact ih hplaced.1.2 frame
          | false => exact .refl frame _
  | @alternative condition _ _ _ _ ih =>
      have hcondition : Grows frame [] (condition.holds frame) := condition.holds_grows frame
      rw [execute, execute]
      refine (SameAt.refl frame _).bind hcondition fun holds => ?_
      cases holds with
      | true => exact .refl frame _
      | false => exact ih hplaced.2.2 frame
  | @body condition body _ _ ih =>
      rw [execute, execute]
      exact .repeatWhile (condition.holds_grows frame) (ih hplaced.2 frame)
        (body.execute_grows rounds frame) rounds

/-- A statement with a block in it is no expression, whose value would be printed. -/
theorem Renames.conclude_eq {statement statement' : Stmt} (h : statement.Renames x y statement')
    (rounds : Nat) (echo : Bool) :
    statement.conclude rounds echo = statement.execute rounds FrameId.global ∧
      statement'.conclude rounds echo = statement'.execute rounds FrameId.global := by
  cases h <;> cases echo <;> exact ⟨rfl, rfl⟩

end Stmt

namespace Program

theorem Renames.same {program program' : Program} (h : program.Renames x y program')
    (hplaced : ∀ statement ∈ program, statement.Placed) (rounds : Nat) (echo : Bool) :
    SameAt FrameId.global (program.run rounds echo) (program'.run rounds echo) := by
  cases h with
  | @item before after statement statement' hstatement =>
      induction before with
      | nil =>
          have hsame := hstatement.same (hplaced statement List.mem_cons_self) rounds FrameId.global
          cases after with
          | nil =>
              obtain ⟨hlast, hlast'⟩ := hstatement.conclude_eq rounds echo
              rw [List.nil_append, List.nil_append, run, run, hlast, hlast']
              exact hsame
          | cons second rest =>
              exact hsame.bind (statement.execute_grows rounds FrameId.global) fun _ => .refl _ _
      | cons first before ih =>
          rw [List.cons_append, List.forall_mem_cons] at hplaced
          rw [List.cons_append, List.cons_append, run_cons (by simp), run_cons (by simp)]
          exact (SameAt.refl _ _).bind (first.execute_grows rounds FrameId.global)
            fun _ => ih hplaced.2

/-- A variable of a block can have any name that does not occur in the block. Under the other name,
the program ends in the same way, has written the same and leaves the same global variables, from
whatever global variables it starts. -/
theorem run_renamed {tokens : List Token} {diagnostics after : Diagnostics}
    {program program' : Program}
    (hread : Parsed.ofTokens tokens diagnostics = .ok ⟨some program, after⟩)
    (hrenames : program.Renames x y program') (rounds : Nat) (echo : Bool) (bindings : Bindings)
    (pooled : Nat) (output : Output) (clock : Clock) :
    program'.run rounds echo ⟨.ofGlobals bindings pooled, output, clock⟩ =
      program.run rounds echo ⟨.ofGlobals bindings pooled, output, clock⟩ := by
  obtain ⟨listing, ending, rest, hlisting, -, -, rfl, -⟩ := Parsed.exists_listing hread
  refine hrenames.same hlisting.placed rounds echo _ ⟨⟨[FrameId.global], ?_⟩, ?_⟩
  · exact .outermost rfl rfl
  · exact fun bindings hmem => (List.mem_replicate.mp hmem).2

def globalName : Token :=
  ⟨.identifier, ⟨0, 18, "b"⟩, none, 1⟩

/-- The tokens of `{ var a; { a; var a; a; } } b;`. -/
def nestedTokens : List Token :=
  [Listing.word .leftBrace "\x7b", Listing.word .varWord "var", Store.someName,
    Listing.word .semicolon ";", Listing.word .leftBrace "\x7b", Store.someName,
    Listing.word .semicolon ";", Listing.word .varWord "var", Store.someName,
    Listing.word .semicolon ";", Store.someName, Listing.word .semicolon ";",
    Listing.word .rightBrace "\x7d", Listing.word .rightBrace "\x7d", globalName,
    Listing.word .semicolon ";", Listing.word .endOfText ""]

/-- The program with a name for the variable of the outer block. -/
def nested (name : Token) : Program :=
  [.block [.declare name none, .block [.expression (.var name), .declare Store.someName none,
    .expression (.var Store.someName)]], .expression (.var globalName)]

theorem nested_renames :
    (nested Store.someName).Renames Store.someName.lexeme globalName.lexeme
      (nested globalName) := by
  refine @Renames.item _ _ [] [.expression (.var globalName)] _ _ (.block ?_)
  refine @Stmt.RenamesRow.behind _ _ [] [.block [.expression (.var Store.someName),
    .declare Store.someName none, .expression (.var Store.someName)]] Store.someName none rfl ?_ ?_
  · simp [Stmt.declares, Stmt.declares?]
  · decide

/-- The name may be that of a global variable. -/
theorem run_renamed_nested :
    Parsed.ofTokens nestedTokens {} = .ok ⟨some (nested Store.someName), {}⟩ ∧
      (nested globalName).run 1 true
          ⟨.ofGlobals ⟨[(globalName.lexeme, .boolean true)]⟩ 0, {}, ⟨fun _ => .zero, 0⟩⟩ =
        (nested Store.someName).run 1 true
          ⟨.ofGlobals ⟨[(globalName.lexeme, .boolean true)]⟩ 0, {}, ⟨fun _ => .zero, 0⟩⟩ := by
  have hread : Parsed.ofTokens nestedTokens {} = .ok ⟨some (nested Store.someName), {}⟩ := rfl
  exact ⟨hread, run_renamed hread nested_renames 1 true _ 0 {} _⟩

end Program

end Treewalk
