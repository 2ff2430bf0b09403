import Treewalk.Proofs.Grammar.Clause

/-!
The operators in the trees of listings. Each level of the grammar takes operators of its own, so a
node holds none but those of its kind: signs, connectives or the operators on two values.
-/

namespace Treewalk

namespace TokenKind

def signs : List TokenKind :=
  [.bang, .minus]

def connectives : List TokenKind :=
  [.orWord, .andWord]

def operators : List TokenKind :=
  [.equalEqual, .bangEqual, .greater, .greaterEqual, .less, .lessEqual, .plus, .minus, .star,
    .slash]

end TokenKind

/-- Every operator is of the kind of its node. -/
inductive Expr.Operable : Expr → Prop
  | constant (value : Constant) : Operable (.constant value)
  | group {inner : Expr} : Operable inner → Operable (.group inner)
  | unary {operator : Token} {operand : Expr} : operator.kind ∈ TokenKind.signs →
      Operable operand → Operable (.unary operator operand)
  | binary {left right : Expr} {operator : Token} : Operable left →
      operator.kind ∈ TokenKind.operators → Operable right →
      Operable (.binary left operator right)
  | logical {left right : Expr} {operator : Token} : Operable left →
      operator.kind ∈ TokenKind.connectives → Operable right →
      Operable (.logical left operator right)
  | var (name : Token) : Operable (.var name)
  | assign {value : Expr} (name : Token) : Operable value → Operable (.assign name value)
  | call {callee : Expr} {arguments : List Expr} (closing : Token) : Operable callee →
      (∀ argument ∈ arguments, Operable argument) → Operable (.call callee closing arguments)

inductive Stmt.Operable : Stmt → Prop
  | expression {value : Expr} : value.Operable → Operable (.expression value)
  | print {value : Expr} : value.Operable → Operable (.print value)
  | declare (name : Token) : Operable (.declare name none)
  | declareAs {initial : Expr} (name : Token) : initial.Operable →
      Operable (.declare name (some initial))
  | block {body : List Stmt} : (∀ statement ∈ body, Operable statement) → Operable (.block body)
  | conditional {condition : Expr} {consequent : Stmt} : condition.Operable →
      Operable consequent → Operable (.conditional condition consequent none)
  | choice {condition : Expr} {consequent alternative : Stmt} : condition.Operable →
      Operable consequent → Operable alternative →
      Operable (.conditional condition consequent (some alternative))
  | loop {condition : Expr} {body : Stmt} : condition.Operable → Operable body →
      Operable (.loop condition body)

theorem Level.mem_operators {level : Level} (hlevel : level.isBinary) :
    ∀ kind ∈ level.operators, if kind = .orWord ∨ kind = .andWord
      then kind ∈ TokenKind.connectives else kind ∈ TokenKind.operators := by
  cases level with
  | assignment | unary | call | primary => contradiction
  | disjunction | conjunction | equality | comparison | sum | product => decide

namespace Phrase

theorem treeRow_eq_map (row : List Phrase) : treeRow row = row.map tree := by
  induction row with
  | nil => rfl
  | cons first rest ih => simp [treeRow, ih]

theorem Fits.operable {level : Level} {phrase : Phrase} (h : phrase.Fits level) :
    phrase.tree.Operable := by
  induction h with
  | constant _ => exact .constant _
  | var _ => exact .var _
  | group _ _ _ ih => exact .group ih
  | call _ _ _ _ _ _ ihCallee ihArguments =>
      refine .call _ ihCallee ?_
      rw [treeRow_eq_map, List.forall_mem_map]
      exact ihArguments
  | unary hoperator _ ih =>
      exact .unary (by simpa [TokenKind.signs] using hoperator) ih
  | binary hlevel _ hoperator _ ihLeft ihRight =>
      rw [tree]
      have hkind := Level.mem_operators hlevel _ hoperator
      split at hkind
      · next hconnective =>
          rw [if_pos hconnective]
          exact .logical ihLeft hkind ihRight
      · next hother =>
          rw [if_neg hother]
          exact .binary ihLeft hkind ihRight
  | @assign target _ _ _ _ _ ihTarget ihValue =>
      cases target with
      | var name => exact .assign name ihValue
      | _ => exact ihTarget
  | tighter _ ih => exact ih

end Phrase

theorem Declaration.Fits.operable {declaration : Declaration} (h : declaration.Fits) :
    declaration.tree.Operable := by
  obtain ⟨keyword, name, initial, semicolon⟩ := declaration
  cases initial with
  | none => exact .declare name
  | some initial => exact .declareAs name (h.initial _ _ rfl).2.operable

theorem Initial.Fits.operable {initial : Initial} (h : initial.Fits) :
    ∀ statement, initial.tree = some statement → statement.Operable := by
  intro statement htree
  cases h with
  | none _ => contradiction
  | declaration hdeclaration =>
      cases htree
      exact hdeclaration.operable
  | expression hvalue _ =>
      cases htree
      exact .expression hvalue.operable

theorem Stmt.Operable.pair {first second : Stmt} (hfirst : first.Operable)
    (hsecond : second.Operable) : Stmt.Operable (.block [first, second]) := by
  apply Stmt.Operable.block
  simpa using And.intro hfirst hsecond

theorem Stmt.Operable.counting {initial : Option Stmt} {condition increment : Option Expr}
    {body : Stmt} (hinitial : ∀ statement, initial = some statement → statement.Operable)
    (hcondition : ∀ value, condition = some value → value.Operable)
    (hincrement : ∀ value, increment = some value → value.Operable) (hbody : body.Operable) :
    (Stmt.counting initial condition increment body).Operable := by
  have htest : (condition.getD (.constant (.boolean true))).Operable := by
    cases condition with
    | none => exact .constant _
    | some value => exact hcondition value rfl
  cases initial with
  | none =>
      cases increment with
      | none => exact .loop htest hbody
      | some value => exact .loop htest (hbody.pair (.expression (hincrement value rfl)))
  | some first =>
      cases increment with
      | none => exact (hinitial first rfl).pair (.loop htest hbody)
      | some value =>
          exact (hinitial first rfl).pair
            (.loop htest (hbody.pair (.expression (hincrement value rfl))))

theorem Counting.Fits.operable {counting : Counting} (h : counting.Fits) {body : Stmt}
    (hbody : body.Operable) : (counting.tree body).Operable := by
  have hoptional (phrase : Option Phrase)
      (hfits : ∀ given, phrase = some given → given.Fits .assignment) :
      ∀ value, phrase.map Phrase.tree = some value → value.Operable := by
    intro value hvalue
    obtain ⟨given, hgiven, rfl⟩ := Option.map_eq_some_iff.mp hvalue
    exact (hfits given hgiven).operable
  rw [counting.tree_eq]
  exact .counting h.initial.operable (hoptional _ h.condition) (hoptional _ h.increment) hbody

namespace Clause

theorem Fits.operable {place : Place} {clause : Clause} (h : clause.Fits place) :
    clause.tree.Operable := by
  induction h with
  | expression hvalue _ => exact .expression hvalue.operable
  | print _ hvalue _ => exact .print hvalue.operable
  | block _ _ _ ih =>
      refine .block ?_
      rw [treeRow_eq_map, List.forall_mem_map]
      exact ih
  | conditional hheading _ ih => exact .conditional hheading.condition.operable ih
  | choice hheading _ _ _ ihConsequent ihAlternative =>
      exact .choice hheading.condition.operable ihConsequent ihAlternative
  | whileLoop hheading _ ih => exact .loop hheading.condition.operable ih
  | forLoop hcounting _ ih => exact hcounting.operable ih
  | declare hdeclaration => exact hdeclaration.operable
  | statement _ ih => exact ih

end Clause

theorem Listing.WellFormed.operable {listing : Listing} (h : listing.WellFormed) :
    ∀ statement ∈ listing.program, statement.Operable := by
  rw [Listing.program, Clause.treeRow_eq_map, List.forall_mem_map]
  exact fun clause hclause => (h.fits clause hclause).operable

end Treewalk
