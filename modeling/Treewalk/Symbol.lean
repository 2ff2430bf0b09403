/-!
Names and the symbols made from them. A table of names keeps each spelling once, so a symbol is
known by its table and its place in that table. Two symbols are the same exactly when one table
made both of one spelling; equal spellings in different tables stay apart.
-/

namespace Treewalk

/-- A spelling as one table of names keeps it. -/
structure Symbol where
  table : Nat
  place : Nat
  spelling : String
  deriving DecidableEq

/-- Sameness of symbols is sameness of place; the spellings are not compared. -/
def Symbol.same (left right : Symbol) : Bool :=
  left.table == right.table && left.place == right.place

/-- A table of names: the spellings entered so far, in the order in which they came. -/
structure Names where
  table : Nat
  spellings : List String := []

namespace Names

/-- The symbol of a spelling. A spelling that is not in the table yet is entered at its end, so
every symbol made earlier keeps its place. -/
def intern (names : Names) (spelling : String) : Symbol × Names :=
  match names.spellings.idxOf? spelling with
  | some place => (⟨names.table, place, spelling⟩, names)
  | none =>
      (⟨names.table, names.spellings.length, spelling⟩,
        { names with spellings := names.spellings ++ [spelling] })

end Names

/-- Several tables of names, told apart by their numbers. -/
structure Registry where
  tables : List Names := []

namespace Registry

/-- The table of a number, empty until a spelling is entered. -/
def table (registry : Registry) (number : Nat) : Names :=
  (registry.tables.find? (·.table == number)).getD ⟨number, []⟩

/-- Makes a symbol in the table of the given number and leaves the other tables alone. -/
def intern (registry : Registry) (number : Nat) (spelling : String) : Symbol × Registry :=
  let (symbol, names) := (registry.table number).intern spelling
  (symbol, ⟨names :: registry.tables.filter (·.table != number)⟩)

end Registry

@[simp] theorem Symbol.same_self (symbol : Symbol) : symbol.same symbol = true := by
  simp [Symbol.same]

theorem Symbol.same_iff {left right : Symbol} :
    left.same right = true ↔ left.table = right.table ∧ left.place = right.place := by
  simp [Symbol.same]

end Treewalk
