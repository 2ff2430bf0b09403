import Treewalk.Proofs.Grammar.Clause

/-!
The places of declarations. In the tree of a listing, a declaration stands in the program or in
the list of a block, never as a branch of a conditional or as the body of a loop.
-/

namespace Treewalk

namespace Stmt

def declared : Stmt → List Token
  | .declare name _ => [name]
  | .conditional _ consequent none => consequent.declared
  | .conditional _ consequent (some alternative) => consequent.declared ++ alternative.declared
  | .loop _ body => body.declared
  | .expression _ => []
  | .print _ => []
  | .block _ => []

mutual

/-- No branch of a conditional and no body of a loop declares a variable outside of blocks. -/
def Placed : Stmt → Prop
  | .block body => PlacedRow body
  | .conditional _ consequent none => consequent.declared = [] ∧ consequent.Placed
  | .conditional _ consequent (some alternative) =>
      (consequent.declared = [] ∧ consequent.Placed) ∧
        (alternative.declared = [] ∧ alternative.Placed)
  | .loop _ body => body.declared = [] ∧ body.Placed
  | .expression _ => True
  | .print _ => True
  | .declare _ _ => True

def PlacedRow : List Stmt → Prop
  | [] => True
  | first :: rest => first.Placed ∧ PlacedRow rest

end

theorem placedRow_iff {row : List Stmt} : PlacedRow row ↔ ∀ statement ∈ row, statement.Placed := by
  induction row with
  | nil => simp [PlacedRow]
  | cons first rest ih => simp [PlacedRow, ih]

end Stmt

theorem Counting.placed_tree (counting : Counting) {body : Stmt} (hdeclared : body.declared = [])
    (hbody : body.Placed) :
    (counting.tree body).declared = [] ∧ (counting.tree body).Placed := by
  obtain ⟨keyword, opening, initial, condition, semicolon, increment, closing⟩ := counting
  cases initial <;> cases condition <;> cases increment <;>
    simp [tree, Initial.tree, Declaration.tree, Stmt.declared, Stmt.Placed, Stmt.PlacedRow,
      hdeclared, hbody]

theorem Clause.Fits.placed {place : Clause.Place} {clause : Clause} (h : clause.Fits place) :
    (place = .statement → clause.tree.declared = []) ∧ clause.tree.Placed := by
  induction h with
  | expression _ _ | print _ _ _ => simp [tree, Stmt.declared, Stmt.Placed]
  | block _ _ _ ih =>
      simp only [tree, Stmt.declared, Stmt.Placed, implies_true, true_and]
      rw [Stmt.placedRow_iff, treeRow_eq_map, List.forall_mem_map]
      exact fun clause hclause => (ih clause hclause).2
  | conditional _ _ ih =>
      obtain ⟨hdeclared, hplaced⟩ := ih
      simp [tree, Stmt.declared, Stmt.Placed, hdeclared rfl, hplaced]
  | choice _ _ _ _ ihConsequent ihAlternative =>
      obtain ⟨hconsequent, hplaced⟩ := ihConsequent
      obtain ⟨halternative, hplaced'⟩ := ihAlternative
      simp [tree, Stmt.declared, Stmt.Placed, hconsequent rfl, hplaced, halternative rfl, hplaced']
  | whileLoop _ _ ih =>
      obtain ⟨hdeclared, hplaced⟩ := ih
      simp [tree, Stmt.declared, Stmt.Placed, hdeclared rfl, hplaced]
  | @forLoop counting body _ _ ih =>
      obtain ⟨hdeclared, hplaced⟩ := counting.placed_tree (ih.1 rfl) ih.2
      rw [tree]
      exact ⟨fun _ => hdeclared, hplaced⟩
  | declare _ => simp [tree, Declaration.tree, Stmt.Placed]
  | statement _ ih => exact ⟨by simp, ih.2⟩

theorem Listing.WellFormed.placed {listing : Listing} (h : listing.WellFormed) :
    ∀ statement ∈ listing.program, statement.Placed := by
  rw [Listing.program, Clause.treeRow_eq_map, List.forall_mem_map]
  exact fun clause hclause => (h.fits clause hclause).placed.2

end Treewalk
