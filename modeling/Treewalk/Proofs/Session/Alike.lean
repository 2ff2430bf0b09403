import Treewalk.Proofs.Evaluation.Matching
import Treewalk.Proofs.Scoping.Session
import Treewalk.Proofs.Session.Reachable

/-!
One interpreter in two runs. The tables of its symbols have grown from one, so symbols that are
spelled alike match, and what the interpreter had before the runs matches itself.
-/

namespace Treewalk

/-! Symbols of two tables that have grown from one, and symbols of other tables. -/

def Symbol.Alike (names others : Names) (name other : Symbol) : Prop :=
  (names.Knows name ∧ others.Knows other ∧ name.spelling = other.spelling) ∨
    (name = other ∧ name.table ≠ names.table)

namespace Symbol

variable {names others : Names} {name other name' other' : Symbol}

theorem Alike.spelling_eq (h : Alike names others name other) : name.spelling = other.spelling := by
  rcases h with ⟨-, -, h⟩ | ⟨rfl, -⟩
  · exact h
  · rfl

theorem Alike.same_eq (hnames : names.spellings.Nodup) (hothers : others.spellings.Nodup)
    (htable : others.table = names.table) (h : Alike names others name other)
    (h' : Alike names others name' other') : name.same name' = other.same other' := by
  rcases h with ⟨hknows, hknows', hspelling⟩ | ⟨rfl, hforeign⟩ <;>
    rcases h' with ⟨hother, hother', hspelling'⟩ | ⟨rfl, hforeign'⟩
  · rw [Bool.eq_iff_iff, Names.same_iff_spelling_eq hnames hknows hother,
      Names.same_iff_spelling_eq hothers hknows' hother', hspelling, hspelling']
  · rw [same_eq_false (by rw [hknows.table_eq]; exact hforeign'.symm),
      same_eq_false (by rw [hknows'.table_eq, htable]; exact hforeign'.symm)]
  · rw [same_eq_false (by rw [hother.table_eq]; exact hforeign),
      same_eq_false (by rw [hother'.table_eq, htable]; exact hforeign)]
  · rfl

end Symbol

/-- Symbols of the two tables match if they are spelled alike, and other symbols if they are
equal. -/
def Matching.alike (line : Line → Line → Prop) {names others : Names}
    (hnames : names.spellings.Nodup) (hothers : others.spellings.Nodup)
    (htable : others.table = names.table) : Matching :=
  .entrywise (Symbol.Alike names others) line (fun h => h.spelling_eq) fun h h' =>
    h.same_eq hnames hothers htable h'

section Worlds

variable {names others : Names} (hnames : names.spellings.Nodup)
  (hothers : others.spellings.Nodup) (htable : others.table = names.table)
  {line : Line → Line → Prop}

/-- Which frames match does not depend on the lines. -/
theorem World.Matched.change_lines {left right : World}
    (h : left.Matched (.alike line hnames hothers htable) right) (line' : Line → Line → Prop) :
    left.Matched (.alike line' hnames hothers htable) right := by
  refine h.imp ?_
  exact fun _ _ hbindings => hbindings

theorem Names.Admits.alike {before : Names} {name : Symbol} (h : before.Admits name)
    (hleft : before.Extends names) (hright : before.Extends others) :
    Symbol.Alike names others name name := by
  by_cases hforeign : name.table = before.table
  · exact .inl ⟨(h hforeign).mono hleft, (h hforeign).mono hright, rfl⟩
  · exact .inr ⟨rfl, hleft.table_eq ▸ hforeign⟩

theorem Interpreter.Sound.admits_entry {interpreter : Interpreter} (h : interpreter.Sound)
    {frame : Frame} (hframe : interpreter.world.store.frames[FrameId.global]? = some frame)
    {entry : Symbol × Value} (hentry : entry ∈ frame.bindings.entries) :
    interpreter.vocabulary.names.Admits entry.1 := by
  refine h.admits (frame.bindings.entries.map Prod.fst) ?_ _ (List.mem_map_of_mem hentry)
  rw [Store.namesIn, Store.outline, hframe]
  rfl

/-- A world matches itself if the symbols of its variables have been made before. -/
theorem Interpreter.Sound.matched_of_admits {interpreter : Interpreter} (h : interpreter.Sound)
    {before : Names} (hadmits : ∀ frame, interpreter.world.store.frames[FrameId.global]? =
      some frame → ∀ entry ∈ frame.bindings.entries, before.Admits entry.1)
    (hleft : before.Extends names) (hright : before.Extends others) :
    interpreter.world.Matched (.alike line hnames hothers htable) interpreter.world where
  store :=
    { size_eq := rfl
      frames := by
        intro id
        cases hframe : interpreter.world.store.frames[id]? with
        | none => exact .none
        | some frame =>
            obtain ⟨hid, -⟩ := Array.getElem?_eq_some_iff.mp hframe
            obtain rfl : id = FrameId.global := by
              rw [h.size_eq] at hid
              exact Nat.lt_one_iff.mp hid
            refine .some ⟨rfl, List.forall₂_same.mpr fun entry hentry => ⟨?_, rfl⟩⟩
            exact (hadmits frame hframe entry hentry).alike hleft hright
      pool_left := h.pool_empty
      pool_right := h.pool_empty }
  output_eq := rfl
  clock_eq := rfl

theorem Interpreter.Sound.matched {interpreter : Interpreter} (h : interpreter.Sound)
    (hleft : interpreter.vocabulary.names.Extends names)
    (hright : interpreter.vocabulary.names.Extends others) :
    interpreter.world.Matched (.alike line hnames hothers htable) interpreter.world :=
  h.matched_of_admits hnames hothers htable (fun _ hframe _ => h.admits_entry hframe) hleft hright

theorem World.Matched.named_eq {left right : Interpreter}
    (h : left.world.Matched (.alike line hnames hothers htable) right.world) :
    left.globals.named = right.globals.named := by
  have hframe := h.store.frames FrameId.global
  unfold Interpreter.globals
  generalize left.world.store.frames[FrameId.global]? = found at hframe
  generalize right.world.store.frames[FrameId.global]? = found' at hframe
  cases hframe with
  | none => rfl
  | some hframe =>
      have hentries := hframe.bindings.imp fun entry other hentry =>
        show (entry.1.spelling, entry.2) = (other.1.spelling, other.2) from
          Prod.ext hentry.1.spelling_eq hentry.2
      rw [← List.forall₂_map_right_iff, ← List.forall₂_map_left_iff, List.forall₂_eq_eq_eq]
        at hentries
      exact hentries

end Worlds

namespace Interpreter

/-- One run has left what another has. -/
structure LeavesLike (left right : Interpreter) : Prop where
  written_eq : left.written = right.written
  globals_eq : left.globals.named = right.globals.named

theorem LeavesLike.of_matched {names others : Names} (hnames : names.spellings.Nodup)
    (hothers : others.spellings.Nodup) (htable : others.table = names.table)
    {line : Line → Line → Prop} {left right : Interpreter}
    (h : left.world.Matched (.alike line hnames hothers htable) right.world) :
    right.LeavesLike left :=
  ⟨congrArg Output.written h.output_eq.symm, (h.named_eq hnames hothers htable).symm⟩

end Interpreter

end Treewalk
