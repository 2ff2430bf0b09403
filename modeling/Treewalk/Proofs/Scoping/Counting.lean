import Treewalk.Proofs.Parsing.StatementComplete
import Treewalk.Proofs.Scoping.Detour

/-!
Counting loops. Their trees are made of blocks and a loop, and of blocks there are more than the
loop has scopes: every lap that ends with an increment is a block. These make no difference to what
the loop does.
-/

namespace Treewalk

open Run

theorem Run.EndsBeside.leave {α : Type} {inner : FrameId}
    {result result' : EStateM.Result Stop World α}
    (h : EndsBeside (Store.AlikeAt inner) result result') :
    EndsBeside Store.Alike (mapWorld Run.leave result) (mapWorld Run.leave result') := by
  refine h.change fun left right hlast => ?_
  exact
    { store :=
        { frames_eq := congrArg Array.pop hlast.store.frames_eq
          pool_left := List.forall_mem_cons.mpr ⟨rfl, hlast.store.pool_left⟩
          pool_right := List.forall_mem_cons.mpr ⟨rfl, hlast.store.pool_right⟩ }
      output_eq := hlast.output_eq
      clock_eq := hlast.clock_eq }

theorem Run.EndsBeside.inFrame {frame : FrameId} {body body' : FrameId → Run Unit} {world : World}
    (hworld : world.store.Reachable) (hframe : frame < world.store.frames.size)
    (hkeeps : Keeps (body world.store.frames.size))
    (hkeeps' : Keeps (body' world.store.frames.size))
    (hbody : Tracks (Store.AlikeAt world.store.frames.size) (body world.store.frames.size)
      (body' world.store.frames.size)) :
    EndsBeside Store.Alike (Run.inFrame frame body world) (Run.inFrame frame body' world) := by
  have hpushed : World.Beside (Store.AlikeAt world.store.frames.size)
      { world with store := (world.store.push frame).2 }
      { world with store := (world.store.push frame).2 } :=
    ⟨(hworld.push hframe).alikeAt (by simp), rfl, rfl⟩
  have hopen := hworld.sane.size_pos
  rw [inFrame_apply hopen hkeeps, inFrame_apply hopen hkeeps']
  exact (hbody hpushed).leave

theorem Stmt.executeRow_pair (first second : Stmt) (rounds : Nat) (frame : FrameId) :
    Stmt.executeRow rounds frame [first, second] =
      first.execute rounds frame >>= fun _ => second.execute rounds frame := by
  simp only [Stmt.executeRow, bind_pure_unit]

namespace Counting

/-- Whether there is another lap. Without a condition there always is. -/
def test (counting : Counting) (frame : FrameId) : Run Bool :=
  match counting.condition with
  | none => pure true
  | some condition => condition.tree.holds frame

/-- A lap is the body and the increment, in the same frame. -/
def lap (counting : Counting) (body : Stmt) (rounds : Nat) (frame : FrameId) : Run Unit := do
  body.execute rounds frame
  match counting.increment with
  | none => pure ()
  | some increment => let _ ← increment.tree.evaluate frame

def laps (counting : Counting) (body : Stmt) (rounds : Nat) (frame : FrameId) : Run Unit :=
  Run.repeatWhile (counting.test frame) (counting.lap body rounds frame) rounds

/-- What the clauses of a loop say: an initial clause is executed in a new frame, in which all laps
are run then. Without one, the laps are run in the frame around the loop. -/
def perform (counting : Counting) (body : Stmt) (rounds : Nat) (frame : FrameId) : Run Unit :=
  match counting.initial.tree with
  | none => counting.laps body rounds frame
  | some initial =>
      Run.inFrame frame fun inner => do
        initial.execute rounds inner
        counting.laps body rounds inner

/-- The loop in the tree, without the block around it. -/
def loop (counting : Counting) (body : Stmt) : Stmt :=
  .loop ((counting.condition.map Phrase.tree).getD (.constant (.boolean true)))
    (match counting.increment with
      | none => body
      | some increment => .block [body, .expression increment.tree])

theorem tree_eq_loop (counting : Counting) (body : Stmt) :
    counting.tree body =
      match counting.initial.tree with
      | none => counting.loop body
      | some initial => .block [initial, counting.loop body] := by
  obtain ⟨keyword, opening, initial, condition, semicolon, increment, closing⟩ := counting
  cases condition <;> rfl

variable {counting : Counting} {body : Stmt} {frame : FrameId} {rounds : Nat}

theorem test_tracks (counting : Counting) (frame : FrameId) :
    Tracks (Store.AlikeAt frame)
      (((counting.condition.map Phrase.tree).getD (.constant (.boolean true))).holds frame)
      (counting.test frame) := by
  unfold test
  cases counting.condition with
  | none => exact .pure true
  | some condition => exact (condition.tree.evaluate_tracks frame frame).bind fun _ => .pure _

theorem lap_tracks (counting : Counting) (hbody : body.declared = []) (frame : FrameId)
    (rounds : Nat) :
    Tracks (Store.AlikeAt frame)
      (Stmt.execute rounds frame
        (match counting.increment with
          | none => body
          | some increment => .block [body, .expression increment.tree]))
      (counting.lap body rounds frame) := by
  unfold lap
  cases counting.increment with
  | none =>
      have hlap : (body.execute rounds frame >>= fun _ => pure ()) = body.execute rounds frame :=
        bind_pure_unit
      rw [hlap]
      exact body.execute_tracks frame frame rounds
  | some increment =>
      have hrow : ∀ statement ∈ [body, .expression increment.tree], statement.declared = [] := by
        simp [hbody, Stmt.declared]
      have htracks := Tracks.inFrame_row frame rounds hrow
      simp only [Stmt.executeRow, Stmt.execute, bind_pure_unit] at htracks ⊢
      exact htracks

theorem loop_tracks (counting : Counting) (hbody : body.declared = []) (frame : FrameId)
    (rounds : Nat) :
    Tracks (Store.AlikeAt frame) ((counting.loop body).execute rounds frame)
      (counting.laps body rounds frame) := by
  rw [loop, Stmt.execute]
  exact (counting.test_tracks frame).repeatWhile (counting.lap_tracks hbody frame rounds) rounds

theorem laps_grows (counting : Counting) (hbody : body.declared = []) (frame : FrameId)
    (rounds : Nat) : Run.Grows frame [] (counting.laps body rounds frame) := by
  have htest : Run.Grows frame [] (counting.test frame) := by
    unfold test
    cases counting.condition with
    | none => exact .pure true
    | some condition => exact condition.tree.holds_grows frame
  have hlap : Run.Grows frame [] (counting.lap body rounds frame) := by
    have hexecute := body.execute_grows rounds frame
    rw [hbody] at hexecute
    apply hexecute.bind
    intro _
    cases counting.increment with
    | none => exact .pure ()
    | some increment => exact (increment.tree.evaluate_grows frame).bind fun _ => .pure ()
  exact (Grows.closed frame []).repeatWhile htest hlap rounds

theorem tree_beside (counting : Counting) (hbody : body.declared = []) {world : World}
    (hworld : world.store.Reachable) (hframe : frame < world.store.frames.size) (rounds : Nat) :
    EndsBeside Store.Alike ((counting.tree body).execute rounds frame world)
      (counting.perform body rounds frame world) := by
  rw [tree_eq_loop, perform]
  cases counting.initial.tree with
  | none =>
      have hloop := counting.loop_tracks hbody frame rounds ⟨hworld.alikeAt hframe, rfl, rfl⟩
      exact hloop.imp hloop.last.store.toAlike
  | some initial =>
      dsimp only
      rw [Stmt.execute]
      refine .inFrame hworld hframe (Stmt.executeRow_keeps _ _ _) ?_ ?_
      · exact (initial.execute_keeps rounds _).bind fun _ =>
          (counting.laps_grows hbody _ rounds).keeps
      · rw [Stmt.executeRow_pair]
        exact (initial.execute_tracks _ _ rounds).bind fun _ =>
          counting.loop_tracks hbody _ rounds

theorem tree_grows (counting : Counting) (hbody : body.declared = []) (hplaced : body.Placed)
    (frame : FrameId) (rounds : Nat) :
    Run.Grows frame [] ((counting.tree body).execute rounds frame) := by
  have hgrows := (counting.tree body).execute_grows rounds frame
  rwa [(counting.placed_tree hbody hplaced).1] at hgrows

/-- A statement does what the clauses of a loop over a body say, in every world to which a run may
come. An increment is evaluated after the body, which leaves the names in all frames as they were,
and so does the loop. -/
structure DoneBy (counting : Counting) (body statement : Stmt) : Prop where
  ends_iff : ∀ (world : World) (frame : FrameId), world.store.Reachable →
    frame < world.store.frames.size →
      ((∃ result, ComesTo (fun rounds => statement.execute rounds frame) world result) ↔
        ∃ result, ComesTo (fun rounds => counting.perform body rounds frame) world result)
  alike : ∀ (world : World) (frame : FrameId), world.store.Reachable →
    frame < world.store.frames.size → ∀ result result',
      ComesTo (fun rounds => statement.execute rounds frame) world result →
        ComesTo (fun rounds => counting.perform body rounds frame) world result' →
          EndsBeside Store.Alike result result'
  body_outline : ∀ (world : World) (frame : FrameId) (rounds : Nat), 0 < world.store.frames.size →
    ∀ id, (last (body.execute rounds frame world)).store.outline id = world.store.outline id
  outline : ∀ (world : World) (frame : FrameId) (rounds : Nat), 0 < world.store.frames.size →
    ∀ id, (last (statement.execute rounds frame world)).store.outline id = world.store.outline id

theorem doneBy_tree (counting : Counting) (hbody : body.declared = []) (hplaced : body.Placed) :
    counting.DoneBy body (counting.tree body) where
  ends_iff _ _ hworld hframe := exists_comesTo_iff (counting.tree_beside hbody hworld hframe)
  alike _ frame hworld hframe _ _ hresult hresult' :=
    hresult.beside (counting.tree_beside hbody hworld hframe) (Stmt.execute_lasts frame _)
      hworld.sane.size_pos hresult'
  body_outline world frame rounds hopen := by
    have hgrows := body.execute_grows rounds frame
    rw [hbody] at hgrows
    exact (hgrows.last_of_nil hopen).outline_of_nil
  outline _ frame rounds hopen :=
    ((counting.tree_grows hbody hplaced frame rounds).last_of_nil hopen).outline_of_nil

end Counting

theorem Clause.Fits.exists_forLoop {clause : Clause} (h : clause.Fits .statement) {keyword : Token}
    {rest : List Token} (hfirst : clause.tokens = keyword :: rest)
    (hkeyword : keyword.kind = .forWord) :
    ∃ counting body, clause = .forLoop counting body ∧ counting.Fits ∧
      Clause.Fits .statement body := by
  cases h with
  | @expression value semicolon hvalue _ =>
      obtain ⟨others, hothers⟩ := value.tokens_eq_first
      have hkind := hvalue.first_kind
      rw [tokens, hothers, List.cons_append, List.cons.injEq] at hfirst
      rw [hfirst.1, hkeyword] at hkind
      simp [Phrase.beginnings, Phrase.primaryBeginnings] at hkind
  | print hprint _ _ =>
      rw [tokens, List.cons.injEq] at hfirst
      rw [hfirst.1, hkeyword] at hprint
      contradiction
  | block hopening _ _ =>
      rw [tokens, List.cons.injEq] at hfirst
      rw [hfirst.1, hkeyword] at hopening
      contradiction
  | conditional hheading _ | choice hheading _ _ _ | whileLoop hheading _ =>
      have hword := hheading.keyword
      rw [tokens, Heading.tokens, List.cons_append, List.cons.injEq] at hfirst
      rw [hfirst.1, hkeyword] at hword
      contradiction
  | forLoop hcounting hbody => exact ⟨_, _, rfl, hcounting, hbody⟩

/-- What the parser reads after the word `for` is a counting loop, and the tree that it makes does
what the clauses of the loop say. -/
theorem Parser.statement_doneBy {bound : Nat} {start finish : Cursor} {statement : Stmt}
    (h : Parser.statement bound start = .ok statement finish) {keyword : Token}
    {rest : List Token} (hstart : start.rest = keyword :: rest)
    (hkeyword : keyword.kind = .forWord) :
    ∃ (counting : Counting) (body : Clause), counting.Fits ∧ body.Fits .statement ∧
      start.rest = counting.tokens ++ body.tokens ++ finish.rest ∧
      counting.DoneBy body.tree statement := by
  obtain ⟨clause, hclause⟩ := statement_derives bound _ _ _ h
  have hrest := hclause.passes.rest_eq
  obtain ⟨first, others, hfirst, -⟩ := hclause.fits.exists_first
  have hword : first = keyword := by
    rw [hstart, hfirst, List.cons_append, List.cons.injEq] at hrest
    exact hrest.1.symm
  obtain ⟨counting, body, rfl, hcounting, hbody⟩ :=
    hclause.fits.exists_forLoop hfirst (hword ▸ hkeyword)
  obtain ⟨hdeclared, hplaced⟩ := hbody.placed
  refine ⟨counting, body, hcounting, hbody, hrest, ?_⟩
  rw [← hclause.tree_eq, Clause.tree]
  exact counting.doneBy_tree (hdeclared rfl) hplaced

def otherName : Token :=
  ⟨.identifier, ⟨0, 18, "b"⟩, none, 1⟩

/-- The tree of a loop that has one lap. Its body is a block in which a variable is declared. -/
def onceAround : Stmt :=
  .counting (some (.declare Store.someName (some (.constant (.boolean true)))))
    (some (.var Store.someName))
    (some (.assign Store.someName (.constant (.boolean false)))) (.block [.declare otherName none])

/-- The loop is read from `for (var a = true; a; a = false) { var b; }`. -/
theorem onceAround_read :
    ∃ keyword rest finish, keyword.kind = .forWord ∧
      Parser.statement 19 ⟨keyword :: rest, {}, false⟩ = .ok onceAround finish := by
  refine ⟨Listing.word .forWord "for", [Listing.word .leftParen "(", Listing.word .varWord "var",
    Store.someName, Listing.word .equal "=", Listing.word .trueWord "true",
    Listing.word .semicolon ";", Store.someName, Listing.word .semicolon ";", Store.someName,
    Listing.word .equal "=", Listing.word .falseWord "false", Listing.word .rightParen ")",
    Listing.word .leftBrace "\x7b", Listing.word .varWord "var", otherName,
    Listing.word .semicolon ";", Listing.word .rightBrace "\x7d",
    Listing.word .endOfText ""], ?_⟩
  exact ⟨_, rfl, rfl⟩

theorem Parser.statement_doneBy_onceAround :
    ∃ (counting : Counting) (body : Clause) (after : World), counting.DoneBy body.tree onceAround ∧
      ComesTo (fun rounds => counting.perform body.tree rounds 1) opened (.ok () after) ∧
      after.store.frames = opened.store.frames := by
  obtain ⟨keyword, rest, finish, hkeyword, hread⟩ := onceAround_read
  obtain ⟨counting, body, -, -, -, hdone⟩ := statement_doneBy hread rfl hkeyword
  have hreachable : opened.store.Reachable := .push .new Nat.one_pos
  have hresult : ComesTo (fun rounds => onceAround.execute rounds 1) opened
      (onceAround.execute 2 1 opened) := ⟨⟨2, rfl⟩, by rintro ⟨_, ⟨⟩⟩⟩
  obtain ⟨result, hperform⟩ := (hdone.ends_iff opened 1 hreachable Nat.one_lt_two).mp ⟨_, hresult⟩
  have halike := hdone.alike opened 1 hreachable Nat.one_lt_two _ _ hresult hperform
  have hended : ∃ after, onceAround.execute 2 1 opened = .ok () after ∧
      after.store.frames = opened.store.frames := ⟨_, rfl, rfl⟩
  obtain ⟨after, hafter, hframes⟩ := hended
  rw [hafter] at halike
  cases halike with
  | ok hlast => exact ⟨counting, body, _, hdone, hperform, hlast.store.frames_eq.symm.trans hframes⟩

end Treewalk
