import Treewalk.Proofs.Evaluation.Matching
import Treewalk.Proofs.Parsing.Reading
import Treewalk.Proofs.Scoping.Laws

/-!
Names of different tables stay apart. A program whose names are of one table does the same wherever
these names have the same values, and variables with names of other tables keep theirs.
-/

namespace Treewalk

/-- One token twice, whose symbol is of the table. -/
structure Token.Of (table : Nat) (name other : Token) : Prop where
  eq : name = other
  table_eq : name.lexeme.table = table

/-- All symbols of the program are of the table. -/
def Program.Of (table : Nat) (program : Program) : Prop :=
  Stmt.RelatedRow (Token.Of table) program program

theorem Token.Twin.of {names : Names} {name other : Token} (h : Token.Twin names names name other)
    (hnodup : names.spellings.Nodup) : Token.Of names.table name other := by
  have hsame := (Names.same_iff_spelling_eq hnodup h.knows_left h.knows_right).mpr h.spelling_eq
  rw [Symbol.same_iff] at hsame
  obtain ⟨hkind, hspelling, hliteral, hline, hknows, -⟩ := h
  obtain ⟨kind, ⟨table, place, spelling⟩, literal, line⟩ := name
  obtain ⟨kind', ⟨table', place', spelling'⟩, literal', line'⟩ := other
  obtain ⟨htable, hplace⟩ := hsame
  dsimp only at hkind hspelling hliteral hline htable hplace
  subst hkind hspelling hliteral hline htable hplace
  exact ⟨rfl, hknows.table_eq⟩

/-- What an interpreter reads is of its own table. -/
theorem Interpreter.parse_of {interpreter : Interpreter} {source : String} {program : Program}
    (hvalid : interpreter.vocabulary.Valid) (h : (interpreter.parse source).1 = .ok program) :
    program.Of interpreter.vocabulary.names.table := by
  rcases interpreter.parse_twins interpreter hvalid hvalid source with
    ⟨left, right, hleft, hright, hrelated⟩ | ⟨failure, hfailure, -⟩
  · obtain rfl : program = left := Except.ok.inj (h.symm.trans hleft)
    obtain rfl : program = right := Except.ok.inj (h.symm.trans hright)
    rw [← (interpreter.parse_extends source).table_eq]
    exact hrelated.imp fun _ _ htwin => htwin.of (parse_valid hvalid source).nodup
  · rw [h] at hfailure
    contradiction

variable {table : Nat}

/-! What a program sees. -/

/-- The names of the table have the same values. -/
def Bindings.AgreeOn (table : Nat) (left right : Bindings) : Prop :=
  ∀ name : Symbol, name.table = table → left.get? name = right.get? name

def Matching.within (table : Nat) : Matching where
  symbol name other := name = other ∧ name.table = table
  line := Eq
  bindings := Bindings.AgreeOn table
  spelling_eq h := congrArg Symbol.spelling h.1
  get?_eq := by
    rintro left right name _ h ⟨rfl, htable⟩
    exact h name htable
  empty _ _ := rfl
  replace := by
    rintro left right name _ value h ⟨rfl, -⟩ other htable
    rw [Bindings.get?_replace, Bindings.get?_replace, h other htable]
  add := by
    rintro left right name _ value h ⟨rfl, -⟩ other htable
    rw [Bindings.get?_add, Bindings.get?_add, h other htable]

theorem Program.Of.matched {program : Program} (h : program.Of table) :
    Stmt.RelatedRow (Token.Matched (.within table)) program program := by
  refine h.imp fun name other hname => ?_
  obtain ⟨rfl, htable⟩ := hname
  exact ⟨rfl, ⟨rfl, htable⟩, rfl⟩

theorem Stop.Matched.eq {reason reason' : Stop}
    (h : reason.Matched (.within table) reason') : reason = reason' := by
  cases h with
  | mistake cause hline => exact congrArg (fun line => Stop.error (.mistake line cause)) hline
  | outputClosed | fault | outOfRounds => rfl

/-! What a program leaves alone. -/

namespace Store

variable {store middle later : Store}

/-- In all frames that were open, variables with names of other tables are as they were. -/
structure Spares (table : Nat) (store later : Store) : Prop where
  size_le : store.frames.size ≤ later.frames.size
  valueAt_eq : ∀ name : Symbol, name.table ≠ table → ∀ id < store.frames.size,
    later.valueAt name id = store.valueAt name id

theorem Spares.refl (store : Store) : store.Spares table store :=
  ⟨Nat.le_refl _, fun _ _ _ _ => rfl⟩

theorem Spares.trans (hfirst : store.Spares table middle) (hsecond : middle.Spares table later) :
    store.Spares table later where
  size_le := Nat.le_trans hfirst.size_le hsecond.size_le
  valueAt_eq name hname id hid :=
    (hsecond.valueAt_eq name hname id (Nat.lt_of_lt_of_le hid hfirst.size_le)).trans
      (hfirst.valueAt_eq name hname id hid)

theorem spares_modify (store : Store) (home : FrameId) {change : Bindings → Bindings}
    (hchange : ∀ bindings : Bindings, ∀ name : Symbol, name.table ≠ table →
      (change bindings).get? name = bindings.get? name) :
    store.Spares table (store.modify home change) where
  size_le := Nat.le_of_eq (size_frames_modify _ _ _).symm
  valueAt_eq name hname id _ := by
    rw [valueAt_modify]
    split
    · simp only [hchange _ name hname]
      rfl
    · rfl

theorem spares_of_assign {frame : FrameId} {name : Token} {value : Value}
    (hname : name.lexeme.table = table) (h : store.assign frame name value = .ok later) :
    store.Spares table later := by
  obtain ⟨home, rfl⟩ := of_assign h
  refine spares_modify store home fun bindings other hother => ?_
  rw [Bindings.get?_replace, Symbol.same_eq_false (hname ▸ hother.symm)]
  rfl

theorem spares_of_define {frame : FrameId} {name : Token} {value : Value}
    (hname : name.lexeme.table = table) (h : store.define frame name value = .ok later) :
    store.Spares table later := by
  obtain rfl := of_define h
  refine spares_modify store frame fun bindings other hother => ?_
  rw [Bindings.get?_add, Symbol.same_eq_false (hname ▸ hother.symm)]
  exact Option.or_none

theorem spares_push (store : Store) (parent : FrameId) :
    store.Spares table (store.push parent).2 where
  size_le := by simp
  valueAt_eq name _ _ hid := valueAt_push_of_lt hid parent name

/-- A frame that has been opened is released again. -/
theorem Spares.pop {parent : FrameId} (h : (store.push parent).2.Spares table middle)
    (hpop : middle.pop store.frames.size = .ok later) : store.Spares table later := by
  have hspares := (spares_push store parent).trans h
  have hsize : later.frames.size = store.frames.size := by
    obtain ⟨hmiddle, -, rfl⟩ := of_pop hpop
    rw [Array.size_pop, hmiddle, Nat.add_sub_cancel]
  refine ⟨Nat.le_of_eq hsize.symm, fun name hname id hid => ?_⟩
  rw [valueAt_of_pop hpop (hsize ▸ hid), hspares.valueAt_eq name hname id hid]

end Store

namespace Run

variable {α β : Type}

/-- However the run ends, variables with names of other tables are as they were. -/
def Spares (table : Nat) (run : Run α) : Prop :=
  ∀ world : World, world.store.Spares table (last (run world)).store

theorem Spares.of_eq {run : Run α} (h : ∀ world, (last (run world)).store = world.store) :
    Spares table run := by
  intro world
  rw [h]
  exact .refl _

theorem Spares.bind {first : Run α} {next : α → Run β} (hfirst : Spares table first)
    (hnext : ∀ value, Spares table (next value)) : Spares table (first >>= next) := by
  intro world
  have hspares := hfirst world
  cases hrun : first world with
  | error reason after =>
      rw [hrun] at hspares
      rw [bind_eq_of_error hrun]
      exact hspares
  | ok value after =>
      rw [hrun] at hspares
      rw [bind_eq_of_ok hrun]
      exact hspares.trans (hnext value after)

theorem Spares.changeStore {change : Store → Except Stop Store}
    (h : ∀ store later, change store = .ok later → store.Spares table later) :
    Spares table (Run.changeStore change) := by
  intro world
  rw [changeStore_apply]
  cases hchange : change world.store with
  | ok later => exact h _ _ hchange
  | error reason => exact .refl _

theorem Spares.lookup (frame : FrameId) (name : Token) : Spares table (Run.lookup frame name) := by
  refine .of_eq fun world => ?_
  rw [lookup_apply]
  cases world.store.get frame name <;> rfl

theorem Spares.inFrame {body : FrameId → Run Unit} (hbody : ∀ inner, Spares table (body inner))
    (parent : FrameId) : Spares table (Run.inFrame parent body) := by
  intro world
  have hrun := hbody world.store.frames.size
    { world with store := (world.store.push parent).2 }
  have hrelease (after : World) (h : (world.store.push parent).2.Spares table after.store) :
      world.store.Spares table (last (Run.release world.store.frames.size after)).store := by
    rw [Run.release, changeStore_apply]
    cases hpop : after.store.pop world.store.frames.size with
    | ok later => exact h.pop hpop
    | error fault => exact (Store.spares_push _ parent).trans h
  simp only [Run.inFrame, Store.push_fst]
  generalize body _ _ = result at hrun
  cases result with
  | ok _ after => exact hrelease after hrun
  | error reason after =>
      have hreleased := hrelease after hrun
      dsimp only
      generalize Run.release _ _ = released at hreleased
      cases released <;> exact hreleased

theorem Spares.congruence (table : Nat) :
    Congruence (Token.Of table) fun left _ => Spares table left where
  kind_eq h := congrArg Token.kind h.eq
  pure _ := .of_eq fun _ => rfl
  fault _ := .of_eq fun _ => rfl
  outOfRounds _ := .of_eq fun _ => rfl
  blame _ _ := .of_eq fun _ => rfl
  bind := .bind
  lookup frame _ := .lookup frame _
  assign _ _ hname := .changeStore fun _ _ h => Store.spares_of_assign hname.table_eq h
  define _ _ hname := .changeStore fun _ _ h => Store.spares_of_define hname.table_eq h
  readClock := .of_eq fun _ => rfl
  writeLine value := .of_eq (last_writeLine_store value)
  inFrame := .inFrame

end Run

theorem Program.Of.run_spares {program : Program} (h : program.Of table) (rounds : Nat)
    (echo : Bool) : Run.Spares table (program.run rounds echo) :=
  (Run.Spares.congruence table).run rounds echo h

theorem Program.Of.run_matches {program : Program} (h : program.Of table) (rounds : Nat)
    (echo : Bool) :
    Run.Matches (.within table) (program.run rounds echo) (program.run rounds echo) :=
  Program.run_matches rounds echo h.matched

end Treewalk
