import Treewalk.Proofs.Grammar.Operators
import Treewalk.Proofs.Lexing.Spelling
import Treewalk.Proofs.Tree.Related
import Treewalk.Proofs.Tree.Text

/-!
Legible trees, in which every token is spelled as in a text. If all their numbers are finite, their
nests are plain, and a nest is that of one legible tree only, but for lines.
-/

namespace Treewalk

/-- The tokens agree but for their lines and the places of their symbols. -/
structure Token.ReadsLike (left right : Token) : Prop where
  kind_eq : left.kind = right.kind
  spelling_eq : left.lexeme.spelling = right.lexeme.spelling
  literal_eq : left.literal = right.literal

theorem Token.IsFixed.readsLike {left right : Token} (h : left.IsFixed) (h' : right.IsFixed)
    (hkind : left.kind = right.kind) : left.ReadsLike right :=
  ⟨hkind, by rw [h.spelling_eq, h'.spelling_eq, hkind], h.literal_eq.trans h'.literal_eq.symm⟩

theorem Token.IsName.readsLike {left right : Token} (h : left.IsName) (h' : right.IsName)
    (hspelling : left.lexeme.spelling = right.lexeme.spelling) : left.ReadsLike right :=
  ⟨h.kind_eq.trans h'.kind_eq.symm, hspelling, h.literal_eq.trans h'.literal_eq.symm⟩

/-! The numbers of a tree. -/

def Constant.numbers : Constant → List Number
  | number value => [value]
  | nil | boolean _ | string _ => []

mutual

def Expr.numbers : Expr → List Number
  | .constant value => value.numbers
  | .group inner => inner.numbers
  | .unary _ operand => operand.numbers
  | .binary left _ right => left.numbers ++ right.numbers
  | .logical left _ right => left.numbers ++ right.numbers
  | .var _ => []
  | .assign _ value => value.numbers
  | .call callee _ arguments => callee.numbers ++ Expr.numbersRow arguments

def Expr.numbersRow : List Expr → List Number
  | [] => []
  | first :: rest => first.numbers ++ Expr.numbersRow rest

end

mutual

def Stmt.numbers : Stmt → List Number
  | .expression value => value.numbers
  | .print value => value.numbers
  | .declare _ none => []
  | .declare _ (some initial) => initial.numbers
  | .block body => Stmt.numbersRow body
  | .conditional condition consequent none => condition.numbers ++ consequent.numbers
  | .conditional condition consequent (some alternative) =>
      condition.numbers ++ (consequent.numbers ++ alternative.numbers)
  | .loop condition body => condition.numbers ++ body.numbers

def Stmt.numbersRow : List Stmt → List Number
  | [] => []
  | first :: rest => first.numbers ++ Stmt.numbersRow rest

end

/-! Legible trees. -/

inductive Constant.Legible : Constant → Prop
  | nil : Legible .nil
  | boolean (value : Bool) : Legible (.boolean value)
  | number {value : Number} : value.isNegative = false → Legible (.number value)
  | string {value : String} : '"' ∉ value.toList → Legible (.string value)

inductive Expr.Legible : Expr → Prop
  | constant {value : Constant} : value.Legible → Legible (.constant value)
  | group {inner : Expr} : Legible inner → Legible (.group inner)
  | unary {operator : Token} {operand : Expr} : operator.kind ∈ TokenKind.signs →
      operator.IsFixed → Legible operand → Legible (.unary operator operand)
  | binary {left right : Expr} {operator : Token} : Legible left →
      operator.kind ∈ TokenKind.operators → operator.IsFixed → Legible right →
      Legible (.binary left operator right)
  | logical {left right : Expr} {operator : Token} : Legible left →
      operator.kind ∈ TokenKind.connectives → operator.IsFixed → Legible right →
      Legible (.logical left operator right)
  | var {name : Token} : name.IsName → Legible (.var name)
  | assign {name : Token} {value : Expr} : name.IsName → Legible value →
      Legible (.assign name value)
  | call {callee : Expr} {closing : Token} {arguments : List Expr} : Legible callee →
      closing.kind = .rightParen → closing.IsFixed → (∀ argument ∈ arguments, Legible argument) →
      Legible (.call callee closing arguments)

inductive Stmt.Legible : Stmt → Prop
  | expression {value : Expr} : value.Legible → Legible (.expression value)
  | print {value : Expr} : value.Legible → Legible (.print value)
  | declare {name : Token} : name.IsName → Legible (.declare name none)
  | declareAs {name : Token} {initial : Expr} : name.IsName → initial.Legible →
      Legible (.declare name (some initial))
  | block {body : List Stmt} : (∀ statement ∈ body, Legible statement) → Legible (.block body)
  | conditional {condition : Expr} {consequent : Stmt} : condition.Legible →
      Legible consequent → Legible (.conditional condition consequent none)
  | choice {condition : Expr} {consequent alternative : Stmt} : condition.Legible →
      Legible consequent → Legible alternative →
      Legible (.conditional condition consequent (some alternative))
  | loop {condition : Expr} {body : Stmt} : condition.Legible → Legible body →
      Legible (.loop condition body)

/-! The nests of legible trees are plain. -/

theorem Nest.isDelimiter_eq_false {character : Char}
    (h : character.isAlphanum = true ∨ character = '_' ∨ character = '.') :
    isDelimiter character = false := by
  by_contra hdelimiter
  simp only [isDelimiter, Bool.not_eq_false, Bool.or_eq_true, beq_iff_eq, or_assoc] at hdelimiter
  rcases hdelimiter with rfl | rfl | rfl | rfl <;> revert h <;> decide

theorem Segment.Form.isDelimiter_eq_false {kind : SegmentKind} {text : List Char}
    (h : Segment.Form kind text) (hkind : kind = .word ∨ kind = .number) :
    ∀ character ∈ text, Nest.isDelimiter character = false := by
  have hdigit {digit : Char} (h : digit.isDigit = true) : digit.isAlphanum = true := by
    simp [Char.isAlphanum, h]
  intro character hmem
  apply Nest.isDelimiter_eq_false
  cases h with
  | word hfirst hrest =>
      rcases List.mem_cons.mp hmem with rfl | hmem
      · rcases hfirst with hfirst | hfirst
        · exact .inl (by simp [Char.isAlphanum, hfirst])
        · exact .inr (.inl hfirst)
      · exact (hrest character hmem).imp_right .inl
  | number _ hdigits => exact .inl (hdigit (hdigits character hmem))
  | fraction _ hwhole _ hplaces =>
      rw [List.mem_append, List.mem_cons] at hmem
      rcases hmem with hmem | rfl | hmem
      · exact .inl (hdigit (hwhole character hmem))
      · exact .inr (.inr rfl)
      · exact .inl (hdigit (hplaces character hmem))
  | blank | comment | operator | longOperator | string => simp at hkind

theorem Token.IsName.plain {name : Token} (h : name.IsName) :
    (Nest.word name.lexeme.spelling).Plain :=
  .word h.form.ne_nil (h.form.isDelimiter_eq_false (.inl rfl))

theorem Number.form_text {value : Number} (hfinite : value.isFinite = true)
    (h : value.isNegative = false) : Segment.Form .number value.text.toList := by
  obtain ⟨numeral, -, htext⟩ := exists_text_eq hfinite h
  rw [htext, String.toList_ofList]
  exact .numeral numeral

theorem TokenKind.solid_text :
    ∀ kind ∈ signs ++ connectives ++ operators, Nest.Solid kind.text := by
  decide

theorem Token.IsFixed.solid {operator : Token} (h : operator.IsFixed)
    (hkind : operator.kind ∈ TokenKind.signs ++ TokenKind.connectives ++ TokenKind.operators) :
    Nest.Solid operator.lexeme.spelling :=
  h.spelling_eq ▸ TokenKind.solid_text _ hkind

theorem Constant.Legible.plain {value : Constant} (h : value.Legible)
    (hfinite : ∀ number ∈ value.numbers, number.isFinite = true) : value.nest.Plain := by
  cases h with
  | nil => exact .word (by decide) (by decide)
  | boolean value => cases value <;> exact .word (by decide) (by decide)
  | @number value hsign =>
      have hform := Number.form_text (hfinite value (by simp [numbers])) hsign
      exact .word hform.ne_nil (hform.isDelimiter_eq_false (.inr rfl))
  | string hquote => exact .quoted hquote

namespace Expr

theorem nestRow_eq_map (row : List Expr) : nestRow row = row.map nest := by
  induction row with
  | nil => rfl
  | cons first rest ih => rw [nestRow, ih, List.map_cons]

theorem numbersRow_eq_flatMap (row : List Expr) : numbersRow row = row.flatMap numbers := by
  induction row with
  | nil => rfl
  | cons first rest ih => rw [numbersRow, ih, List.flatMap_cons]

theorem Legible.plain {value : Expr} (h : value.Legible)
    (hfinite : ∀ number ∈ value.numbers, number.isFinite = true) : value.nest.Plain := by
  induction h with
  | constant hvalue => exact hvalue.plain hfinite
  | group _ ih => exact .node (by decide) (by simpa using ih hfinite)
  | unary hkind hfixed _ ih =>
      exact .node (hfixed.solid (by simp [hkind])) (by simpa using ih hfinite)
  | binary _ hkind hfixed _ ihLeft ihRight | logical _ hkind hfixed _ ihLeft ihRight =>
      rw [numbers, List.forall_mem_append] at hfinite
      exact .node (hfixed.solid (by simp [hkind]))
        (by simpa using ⟨ihLeft hfinite.1, ihRight hfinite.2⟩)
  | var hname => exact hname.plain
  | assign hname _ ih => exact .node (by decide) (by simpa using ⟨hname.plain, ih hfinite⟩)
  | call _ _ _ _ ihCallee ihArguments =>
      rw [numbers, List.forall_mem_append, numbersRow_eq_flatMap, List.forall_mem_flatMap]
        at hfinite
      refine .node (by decide) ?_
      rw [nestRow_eq_map, List.forall_mem_cons, List.forall_mem_map]
      exact ⟨ihCallee hfinite.1, fun argument hmem => ihArguments argument hmem
        (hfinite.2 argument hmem)⟩

end Expr

namespace Stmt

theorem nestRow_eq_map (row : List Stmt) : nestRow row = row.map nest := by
  induction row with
  | nil => rfl
  | cons first rest ih => rw [nestRow, ih, List.map_cons]

theorem numbersRow_eq_flatMap (row : List Stmt) : numbersRow row = row.flatMap numbers := by
  induction row with
  | nil => rfl
  | cons first rest ih => rw [numbersRow, ih, List.flatMap_cons]

theorem Legible.plain {statement : Stmt} (h : statement.Legible)
    (hfinite : ∀ number ∈ statement.numbers, number.isFinite = true) : statement.nest.Plain := by
  induction h with
  | expression hvalue | print hvalue =>
      exact .node (by decide) (by simpa using hvalue.plain hfinite)
  | declare hname => exact .node (by decide) (by simpa using hname.plain)
  | declareAs hname hinitial =>
      exact .node (by decide) (by simpa using ⟨hname.plain, hinitial.plain hfinite⟩)
  | block _ ih =>
      rw [numbers, numbersRow_eq_flatMap, List.forall_mem_flatMap] at hfinite
      refine .node (by decide) ?_
      rw [nestRow_eq_map, List.forall_mem_map]
      exact fun statement hmem => ih statement hmem (hfinite statement hmem)
  | conditional hcondition _ ih | loop hcondition _ ih =>
      rw [numbers, List.forall_mem_append] at hfinite
      exact .node (by decide) (by simpa using ⟨hcondition.plain hfinite.1, ih hfinite.2⟩)
  | choice hcondition _ _ ihConsequent ihAlternative =>
      rw [numbers, List.forall_mem_append, List.forall_mem_append] at hfinite
      exact .node (by decide) (by simpa using ⟨hcondition.plain hfinite.1,
        ihConsequent hfinite.2.1, ihAlternative hfinite.2.2⟩)

end Stmt

end Treewalk
