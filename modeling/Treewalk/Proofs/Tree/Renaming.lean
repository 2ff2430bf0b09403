import Treewalk.Proofs.Scoping.Moment

/-!
Renaming a variable of a block in the tree. The declaration gets another name, and so do the uses
behind it that mean it. These are all uses of the name but those in inner blocks that declare it
themselves before.
-/

namespace Treewalk

/-- The token with the name `y`, if it has the name `x`. -/
def Token.renamed (x y : Symbol) (token : Token) : Token :=
  if token.lexeme.same x then { token with lexeme := y } else token

namespace Expr

mutual

/-- The variables that an expression reads or assigns. -/
def names : Expr → List Token
  | constant _ => []
  | group inner => inner.names
  | unary _ operand => operand.names
  | binary left _ right => left.names ++ right.names
  | logical left _ right => left.names ++ right.names
  | var name => [name]
  | assign name value => name :: value.names
  | call callee _ arguments => callee.names ++ namesRow arguments

def namesRow : List Expr → List Token
  | [] => []
  | first :: rest => first.names ++ namesRow rest

end

mutual

def mapNames (change : Token → Token) : Expr → Expr
  | constant value => constant value
  | group inner => group (inner.mapNames change)
  | unary operator operand => unary operator (operand.mapNames change)
  | binary left operator right => binary (left.mapNames change) operator (right.mapNames change)
  | logical left operator right => logical (left.mapNames change) operator (right.mapNames change)
  | var name => var (change name)
  | assign name value => assign (change name) (value.mapNames change)
  | call callee closing arguments =>
      call (callee.mapNames change) closing (mapNamesRow change arguments)

def mapNamesRow (change : Token → Token) : List Expr → List Expr
  | [] => []
  | first :: rest => first.mapNames change :: mapNamesRow change rest

end

end Expr

namespace Stmt

/-- The statement is a declaration of `x`. -/
def declares (x : Symbol) (statement : Stmt) : Bool :=
  statement.declares?.any (·.lexeme.same x)

mutual

/-- The variables that a statement declares, reads or assigns, at any depth. -/
def names : Stmt → List Token
  | expression value => value.names
  | print value => value.names
  | declare name none => [name]
  | declare name (some initial) => name :: initial.names
  | block body => namesRow body
  | conditional condition consequent none => condition.names ++ consequent.names
  | conditional condition consequent (some alternative) =>
      condition.names ++ (consequent.names ++ alternative.names)
  | loop condition body => condition.names ++ body.names

def namesRow : List Stmt → List Token
  | [] => []
  | first :: rest => first.names ++ namesRow rest

end

mutual

/-- Changes the variables that a statement reads or assigns, but for those in a block behind a
declaration of `x` in the list of the block. -/
def mapFree (x : Symbol) (change : Token → Token) : Stmt → Stmt
  | expression value => expression (value.mapNames change)
  | print value => print (value.mapNames change)
  | declare name none => declare name none
  | declare name (some initial) => declare name (some (initial.mapNames change))
  | block body => block (mapFreeRow x change body)
  | conditional condition consequent none =>
      conditional (condition.mapNames change) (consequent.mapFree x change) none
  | conditional condition consequent (some alternative) =>
      conditional (condition.mapNames change) (consequent.mapFree x change)
        (some (alternative.mapFree x change))
  | loop condition body => loop (condition.mapNames change) (body.mapFree x change)

def mapFreeRow (x : Symbol) (change : Token → Token) : List Stmt → List Stmt
  | [] => []
  | first :: rest =>
      first.mapFree x change :: mapFreeRow x (if first.declares x then id else change) rest

end

/-- The list of a block that declares `x` once, and the list with `y` in place of that variable,
where `y` is a name that does not occur in the block. -/
inductive RenamesRow (x y : Symbol) : List Stmt → List Stmt → Prop
  | behind {before after : List Stmt} {name : Token} {initial : Option Expr} :
      name.lexeme.same x = true →
      (∀ statement ∈ before ++ after, statement.declares x = false) →
      (∀ other ∈ namesRow (before ++ declare name initial :: after),
        other.lexeme.same y = false) →
      RenamesRow x y (before ++ declare name initial :: after)
        (before ++ declare (name.renamed x y) initial ::
          mapFreeRow x (Token.renamed x y) after)

/-- A variable of one block has been renamed, of the statement itself or of one inside. -/
inductive Renames (x y : Symbol) : Stmt → Stmt → Prop
  | block {body body' : List Stmt} : RenamesRow x y body body' →
      Renames x y (block body) (block body')
  | item {before after : List Stmt} {statement statement' : Stmt} :
      Renames x y statement statement' →
      Renames x y (block (before ++ statement :: after)) (block (before ++ statement' :: after))
  | consequent {condition : Expr} {consequent consequent' : Stmt} {alternative : Option Stmt} :
      Renames x y consequent consequent' →
      Renames x y (conditional condition consequent alternative)
        (conditional condition consequent' alternative)
  | alternative {condition : Expr} {consequent alternative alternative' : Stmt} :
      Renames x y alternative alternative' →
      Renames x y (conditional condition consequent (some alternative))
        (conditional condition consequent (some alternative'))
  | body {condition : Expr} {body body' : Stmt} : Renames x y body body' →
      Renames x y (loop condition body) (loop condition body')

end Stmt

inductive Program.Renames (x y : Symbol) : Program → Program → Prop
  | item {before after : List Stmt} {statement statement' : Stmt} :
      statement.Renames x y statement' →
      Program.Renames x y (before ++ statement :: after) (before ++ statement' :: after)

/-! Within a block that is renamed. -/

/-- What a name becomes within a block that is renamed, where another variable may hide that of the
block. -/
def Token.within (x y : Symbol) (hidden : Bool) : Token → Token :=
  if hidden then id else renamed x y

theorem Token.renamed_of_same {x y : Symbol} {name : Token} (h : name.lexeme.same x = true) :
    name.renamed x y = { name with lexeme := y } :=
  if_pos h

theorem Token.within_of_ne {x : Symbol} {name : Token} (h : name.lexeme.same x = false)
    (y : Symbol) (hidden : Bool) : name.within x y hidden = name := by
  cases hidden with
  | true => rfl
  | false => exact if_neg (by simp [h])

theorem Token.within_or (x y : Symbol) (hidden declares : Bool) :
    (if declares then id else Token.within x y hidden) = Token.within x y (hidden || declares) := by
  cases declares <;> cases hidden <;> rfl

namespace Stmt

theorem mem_names_of_declares? {statement : Stmt} {name : Token}
    (h : statement.declares? = some name) : name ∈ statement.names := by
  match statement with
  | .declare _ none | .declare _ (some _) =>
      cases h
      exact List.mem_cons_self

theorem namesRow_eq_flatMap (row : List Stmt) : namesRow row = row.flatMap names := by
  induction row with
  | nil => rfl
  | cons first rest ih => rw [namesRow, List.flatMap_cons, ih]

end Stmt

end Treewalk
