import Treewalk.Diagnostic
import Treewalk.Parsing.Expression

/-!
Phrases: expressions with all the tokens by which they are written. A phrase fits a level of the
grammar when it can be derived from that level; the loosest level is assignment, the tightest one
holds the phrases that need no parentheses anywhere. A phrase may fit the grammar and still be
wrong in two ways that do not confuse a reader: an assignment to something other than a name, and
a call with too many arguments. Phrases without such mistakes are strict.
-/

namespace Treewalk

/-- The levels of the grammar of expressions, from the loosest to the tightest. -/
inductive Level where
  | assignment | disjunction | conjunction | equality | comparison | sum | product
  | unary | call | primary
  deriving DecidableEq

namespace Level

def tighter : Level → Level
  | assignment => disjunction
  | disjunction => conjunction
  | conjunction => equality
  | equality => comparison
  | comparison => sum
  | sum => product
  | product => unary
  | unary => call
  | call => primary
  | primary => primary

def rank : Level → Nat
  | assignment => 0
  | disjunction => 1
  | conjunction => 2
  | equality => 3
  | comparison => 4
  | sum => 5
  | product => 6
  | unary => 7
  | call => 8
  | primary => 9

/-- The kinds of the tokens with which a phrase of the next tighter level goes on. -/
def operators : Level → List TokenKind
  | assignment => [.equal]
  | disjunction => [.orWord]
  | conjunction => [.andWord]
  | equality => [.equalEqual, .bangEqual]
  | comparison => [.greater, .greaterEqual, .less, .lessEqual]
  | sum => [.plus, .minus]
  | product => [.star, .slash]
  | call => [.leftParen]
  | unary => []
  | primary => []

/-- The levels whose phrases are operands of the next level, joined from the left. -/
def isBinary : Level → Bool
  | disjunction | conjunction | equality | comparison | sum | product => true
  | _ => false

def node : Level → Expr → Token → Expr → Expr
  | disjunction | conjunction => .logical
  | _ => .binary

theorem endOfText_not_mem_operators (level : Level) : .endOfText ∉ level.operators := by
  cases level <;> simp [operators]

end Level

/-- How a constant is written. Number and string tokens stand for their literal. -/
inductive Constant.WrittenAs : Constant → Token → Prop where
  | nil {token : Token} : token.kind = .nilWord → WrittenAs .nil token
  | isFalse {token : Token} : token.kind = .falseWord → WrittenAs (.boolean false) token
  | isTrue {token : Token} : token.kind = .trueWord → WrittenAs (.boolean true) token
  | number {token : Token} {value : Number} : token.kind = .number ∨ token.kind = .string →
      token.literal = some (.number value) → WrittenAs (.number value) token
  | string {token : Token} {value : String} : token.kind = .number ∨ token.kind = .string →
      token.literal = some (.string value) → WrittenAs (.string value) token

theorem Constant.ofToken?_eq_some_iff {token : Token} {value : Constant} :
    Constant.ofToken? token = some value ↔ value.WrittenAs token := by
  constructor
  · intro h
    unfold Constant.ofToken? at h
    split at h
    · next hkind => cases h; exact .isFalse hkind
    · next hkind => cases h; exact .isTrue hkind
    · next hkind => cases h; exact .nil hkind
    · next hkind =>
        split at h
        · next hliteral => cases h; exact .number (.inl hkind) hliteral
        · next hliteral => cases h; exact .string (.inl hkind) hliteral
        · contradiction
    · next hkind =>
        split at h
        · next hliteral => cases h; exact .number (.inr hkind) hliteral
        · next hliteral => cases h; exact .string (.inr hkind) hliteral
        · contradiction
    · contradiction
  · intro h
    cases h with
    | nil hkind | isFalse hkind | isTrue hkind => simp [Constant.ofToken?, hkind]
    | number hkind hliteral | string hkind hliteral =>
        rcases hkind with hkind | hkind <;> simp [Constant.ofToken?, hkind, hliteral]

/-- An error of the grammar and the token at which it is found. -/
structure Remark where
  token : Token
  error : GrammarError
  deriving DecidableEq

inductive Phrase where
  | constant (token : Token) (value : Constant)
  | var (name : Token)
  | group (opening : Token) (inner : Phrase) (closing : Token)
  | call (callee : Phrase) (opening : Token) (arguments : List Phrase) (commas : List Token)
      (closing : Token)
  | unary (operator : Token) (operand : Phrase)
  | binary (left : Phrase) (operator : Token) (right : Phrase)
  | assign (target : Phrase) (equals : Token) (value : Phrase)

/-- Rows of tokens with separators between them. -/
def separated : List (List Token) → List Token → List Token
  | [], _ => []
  | [last], _ => last
  | first :: rest, [] => first ++ separated rest []
  | first :: rest, separator :: separators =>
      first ++ separator :: separated rest separators

theorem mem_separated {rows : List (List Token)} {separators : List Token} {token : Token}
    (h : token ∈ separated rows separators) :
    (∃ row ∈ rows, token ∈ row) ∨ token ∈ separators := by
  induction rows, separators using separated.induct with
  | case1 => simp [separated] at h
  | case2 => simpa [separated] using .inl h
  | case3 first rest _ ih =>
      rw [separated, List.mem_append] at h
      rcases h with h | h
      · exact .inl ⟨first, by simp, h⟩
      · simpa using .inr (by simpa using ih h)
      · assumption
  | case4 first rest separator separators _ ih =>
      rw [separated, List.mem_append, List.mem_cons] at h
      rcases h with h | rfl | h
      · exact .inl ⟨first, by simp, h⟩
      · exact .inr (by simp)
      · rcases ih h with ⟨row, hrow, hmem⟩ | hmem
        · exact .inl ⟨row, by simp [hrow], hmem⟩
        · exact .inr (by simp [hmem])
      · assumption

/-- One of several rows with separators between them. -/
theorem exists_separated (before after : List (List Token)) (separators : List Token) :
    ∃ front back, ∀ row : List Token,
      separated (before ++ row :: after) separators = front ++ (row ++ back) := by
  induction before generalizing separators with
  | nil =>
      cases after with
      | nil => exact ⟨[], [], by simp [separated]⟩
      | cons second rest =>
          cases separators with
          | nil => exact ⟨[], separated (second :: rest) [], by simp [separated]⟩
          | cons separator separators =>
              exact ⟨[], separator :: separated (second :: rest) separators, by simp [separated]⟩
  | cons first before ih =>
      have hmore (row : List Token) : before ++ row :: after ≠ [] := by simp
      cases separators with
      | nil =>
          obtain ⟨front, back, hrest⟩ := ih []
          refine ⟨first ++ front, back, fun row => ?_⟩
          obtain ⟨second, rest, hrow⟩ := List.exists_cons_of_ne_nil (hmore row)
          rw [List.cons_append, hrow, separated, ← hrow, hrest]
          · simp
          · simp
      | cons separator separators =>
          obtain ⟨front, back, hrest⟩ := ih separators
          refine ⟨first ++ separator :: front, back, fun row => ?_⟩
          obtain ⟨second, rest, hrow⟩ := List.exists_cons_of_ne_nil (hmore row)
          rw [List.cons_append, hrow, separated, ← hrow, hrest]
          · simp
          · simp

theorem mem_separated_of_mem {rows : List (List Token)} {row : List Token} {token : Token}
    (hrow : row ∈ rows) (h : token ∈ row) (separators : List Token) :
    token ∈ separated rows separators := by
  obtain ⟨before, after, rfl⟩ := List.append_of_mem hrow
  obtain ⟨front, back, hsplit⟩ := exists_separated before after separators
  simp [hsplit, h]

namespace Phrase

def first : Phrase → Token
  | constant token _ => token
  | var name => name
  | group opening _ _ => opening
  | call callee _ _ _ _ => callee.first
  | unary operator _ => operator
  | binary left _ _ => left.first
  | assign target _ _ => target.first

mutual

def tokens : Phrase → List Token
  | constant token _ => [token]
  | var name => [name]
  | group opening inner closing => opening :: (inner.tokens ++ [closing])
  | call callee opening arguments commas closing =>
      callee.tokens ++ opening :: (separated (tokensRow arguments) commas ++ [closing])
  | unary operator operand => operator :: operand.tokens
  | binary left operator right => left.tokens ++ operator :: right.tokens
  | assign target equals value => target.tokens ++ equals :: value.tokens

def tokensRow : List Phrase → List (List Token)
  | [] => []
  | first :: rest => first.tokens :: tokensRow rest

end

mutual

/-- The tree of a phrase. An assignment to something other than a name is left out: only its
target remains. -/
def tree : Phrase → Expr
  | constant _ value => .constant value
  | var name => .var name
  | group _ inner _ => .group inner.tree
  | call callee _ arguments _ closing => .call callee.tree closing (treeRow arguments)
  | unary operator operand => .unary operator operand.tree
  | binary left operator right =>
      if operator.kind = .orWord ∨ operator.kind = .andWord then
        .logical left.tree operator right.tree
      else .binary left.tree operator right.tree
  | assign (var name) _ value => .assign name value.tree
  | assign target _ _ => target.tree

def treeRow : List Phrase → List Expr
  | [] => []
  | first :: rest => first.tree :: treeRow rest

end

def targetRemarks (target : Phrase) (equals : Token) : List Remark :=
  match target with
  | var _ => []
  | _ => [⟨equals, .invalidAssignmentTarget⟩]

def countRemarks (count : Nat) (argument : Phrase) : List Remark :=
  if maximumArguments ≤ count then [⟨argument.first, .tooManyArguments⟩] else []

mutual

/-- The remarks that a phrase deserves, in the order in which a reader makes them. -/
def remarks : Phrase → List Remark
  | constant _ _ => []
  | var _ => []
  | group _ inner _ => inner.remarks
  | call callee _ arguments _ _ => callee.remarks ++ remarksRow 0 arguments
  | unary _ operand => operand.remarks
  | binary left _ right => left.remarks ++ right.remarks
  | assign target equals value =>
      target.remarks ++ value.remarks ++ target.targetRemarks equals

def remarksRow : Nat → List Phrase → List Remark
  | _, [] => []
  | count, first :: rest =>
      first.countRemarks count ++ first.remarks ++ remarksRow (count + 1) rest

end

mutual

/-- Assignments are to names, and no call has too many arguments. -/
def Strict : Phrase → Prop
  | constant _ _ => True
  | var _ => True
  | group _ inner _ => inner.Strict
  | call callee _ arguments _ _ =>
      callee.Strict ∧ arguments.length ≤ maximumArguments ∧ StrictRow arguments
  | unary _ operand => operand.Strict
  | binary left _ right => left.Strict ∧ right.Strict
  | assign target _ value => (∃ name, target = var name) ∧ value.Strict

def StrictRow : List Phrase → Prop
  | [] => True
  | first :: rest => first.Strict ∧ StrictRow rest

end

/-- The derivations of the grammar, up to the two kinds of mistakes that strictness excludes. -/
inductive Fits : Level → Phrase → Prop where
  | constant {token : Token} {value : Constant} :
      value.WrittenAs token → Fits .primary (.constant token value)
  | var {name : Token} : name.kind = .identifier → Fits .primary (.var name)
  | group {opening closing : Token} {inner : Phrase} : opening.kind = .leftParen →
      Fits .assignment inner → closing.kind = .rightParen →
      Fits .primary (.group opening inner closing)
  | call {callee : Phrase} {opening closing : Token} {arguments : List Phrase}
      {commas : List Token} : Fits .call callee → opening.kind = .leftParen →
      (∀ argument ∈ arguments, Fits .assignment argument) →
      (∀ comma ∈ commas, comma.kind = .comma) → commas.length = arguments.length - 1 →
      closing.kind = .rightParen → Fits .call (.call callee opening arguments commas closing)
  | unary {operator : Token} {operand : Phrase} :
      operator.kind = .bang ∨ operator.kind = .minus → Fits .unary operand →
      Fits .unary (.unary operator operand)
  | binary {level : Level} {left right : Phrase} {operator : Token} : level.isBinary →
      Fits level left → operator.kind ∈ level.operators → Fits level.tighter right →
      Fits level (.binary left operator right)
  | assign {target value : Phrase} {equals : Token} : Fits .disjunction target →
      equals.kind = .equal → Fits .assignment value →
      Fits .assignment (.assign target equals value)
  | tighter {level : Level} {phrase : Phrase} : Fits level.tighter phrase → Fits level phrase

theorem tokens_eq_first (phrase : Phrase) : ∃ rest, phrase.tokens = phrase.first :: rest := by
  match phrase with
  | constant token _ => exact ⟨[], by simp [tokens, first]⟩
  | var name => exact ⟨[], by simp [tokens, first]⟩
  | group opening inner closing => exact ⟨inner.tokens ++ [closing], by simp [tokens, first]⟩
  | unary operator operand => exact ⟨operand.tokens, by simp [tokens, first]⟩
  | call callee opening arguments commas closing =>
      obtain ⟨rest, hrest⟩ := callee.tokens_eq_first
      exact ⟨_, by rw [tokens, hrest, List.cons_append, first]⟩
  | binary left operator right =>
      obtain ⟨rest, hrest⟩ := left.tokens_eq_first
      exact ⟨_, by rw [tokens, hrest, List.cons_append, first]⟩
  | assign target equals value =>
      obtain ⟨rest, hrest⟩ := target.tokens_eq_first
      exact ⟨_, by rw [tokens, hrest, List.cons_append, first]⟩

/-- The kinds of the tokens with which a phrase can begin that has no sign before it. -/
def primaryBeginnings : List TokenKind :=
  [.nilWord, .falseWord, .trueWord, .number, .string, .identifier, .leftParen]

def beginnings : List TokenKind :=
  .bang :: .minus :: primaryBeginnings

theorem Fits.first_kind_of_call {level : Level} {phrase : Phrase} (h : phrase.Fits level)
    (hlevel : level = .call ∨ level = .primary) : phrase.first.kind ∈ primaryBeginnings := by
  induction h with
  | constant hwritten =>
      cases hwritten with
      | nil hkind | isFalse hkind | isTrue hkind => simp [first, primaryBeginnings, hkind]
      | number hkind _ | string hkind _ =>
          rcases hkind with hkind | hkind <;> simp [first, primaryBeginnings, hkind]
  | var hname => simp [first, primaryBeginnings, hname]
  | group hopening _ _ => simp [first, primaryBeginnings, hopening]
  | call _ _ _ _ _ _ hcallee _ => exact hcallee hlevel
  | unary _ _ => simp at hlevel
  | binary hbinary _ _ _ => rcases hlevel with rfl | rfl <;> contradiction
  | assign _ _ _ => simp at hlevel
  | tighter _ ih =>
      apply ih
      rcases hlevel with rfl | rfl <;> simp [Level.tighter]

theorem Fits.first_kind {level : Level} {phrase : Phrase} (h : phrase.Fits level) :
    phrase.first.kind ∈ beginnings := by
  induction h with
  | constant hwritten =>
      exact .tail _ (.tail _ ((Fits.constant hwritten).first_kind_of_call (.inr rfl)))
  | var hname => simp [first, beginnings, primaryBeginnings, hname]
  | group hopening _ _ => simp [first, beginnings, primaryBeginnings, hopening]
  | call _ _ _ _ _ _ ih _ => exact ih
  | unary hoperator _ _ => rcases hoperator with h | h <;> simp [first, beginnings, h]
  | binary _ _ _ _ ih _ => exact ih
  | assign _ _ _ ih _ => exact ih
  | tighter _ ih => exact ih

theorem tokens_length_pos (phrase : Phrase) : 0 < phrase.tokens.length := by
  obtain ⟨rest, hrest⟩ := phrase.tokens_eq_first
  simp [hrest]

theorem tokensRow_eq_map (arguments : List Phrase) :
    tokensRow arguments = arguments.map tokens := by
  induction arguments with
  | nil => simp [tokensRow]
  | cons first rest ih => simp [tokensRow, ih]

theorem Fits.kind_ne_endOfText {level : Level} {phrase : Phrase} (h : phrase.Fits level) :
    ∀ token ∈ phrase.tokens, token.kind ≠ .endOfText := by
  induction h with
  | constant hwritten =>
      cases hwritten with
      | nil hkind | isFalse hkind | isTrue hkind => simp [tokens, hkind]
      | number hkind _ | string hkind _ => rcases hkind with hkind | hkind <;> simp [tokens, hkind]
  | var hname => simp [tokens, hname]
  | group hopening _ hclosing ih => simpa [tokens, hopening, hclosing, or_imp, forall_and] using ih
  | call _ hopening _ hcommas _ hclosing ihCallee ihArguments =>
      intro token hmem
      simp only [tokens, List.mem_append, List.mem_cons, List.not_mem_nil, or_false] at hmem
      rcases hmem with hmem | rfl | hmem | rfl
      · exact ihCallee token hmem
      · simp [hopening]
      · rcases mem_separated hmem with ⟨row, hrow, hmem⟩ | hmem
        · rw [tokensRow_eq_map, List.mem_map] at hrow
          obtain ⟨argument, hargument, rfl⟩ := hrow
          exact ihArguments argument hargument token hmem
        · simp [hcommas token hmem]
      · simp [hclosing]
  | unary hoperator _ ih =>
      rcases hoperator with h | h <;> simpa [tokens, h] using ih
  | @binary level _ _ operator _ _ hoperator _ ihLeft ihRight =>
      have hend : operator.kind ≠ .endOfText := fun heq =>
        level.endOfText_not_mem_operators (heq ▸ hoperator)
      simpa [tokens, or_imp, forall_and, hend] using ⟨ihLeft, ihRight⟩
  | assign _ hequals _ ihTarget ihValue =>
      simpa [tokens, or_imp, forall_and, hequals] using ⟨ihTarget, ihValue⟩
  | tighter _ ih => exact ih

@[simp] theorem tree_assign_var (name equals : Token) (value : Phrase) :
    (assign (var name) equals value).tree = .assign name value.tree := by
  rw [tree]

theorem tree_assign_of_ne {target : Phrase} (equals : Token) (value : Phrase)
    (h : ∀ name, target ≠ var name) : (assign target equals value).tree = target.tree := by
  rw [tree]
  exact h

/-- Only a name has the tree of a name; in particular no group has. -/
theorem tree_eq_var {phrase : Phrase} {name : Token} (h : phrase.tree = .var name) :
    phrase = var name := by
  match phrase with
  | var other => simpa [tree] using h
  | constant _ _ | group _ _ _ | call _ _ _ _ _ | unary _ _ => simp [tree] at h
  | binary left operator right =>
      rw [tree] at h
      split at h <;> contradiction
  | assign target equals value =>
      by_cases hvar : ∃ other, target = var other
      · obtain ⟨other, rfl⟩ := hvar
        simp at h
      · rw [not_exists] at hvar
        rw [tree_assign_of_ne equals value hvar] at h
        exact absurd (target.tree_eq_var h) (hvar name)

theorem tree_binary {level : Level} (hlevel : level.isBinary) {operator : Token}
    (hoperator : operator.kind ∈ level.operators) (left right : Phrase) :
    (binary left operator right).tree = level.node left.tree operator right.tree := by
  rw [tree]
  cases level <;> simp_all [Level.isBinary, Level.operators, Level.node] <;> grind

mutual

theorem remarks_eq_nil_iff (phrase : Phrase) : phrase.remarks = [] ↔ phrase.Strict := by
  match phrase with
  | constant _ _ | var _ => simp [remarks, Strict]
  | group _ inner _ => simp [remarks, Strict, inner.remarks_eq_nil_iff]
  | call callee _ arguments _ _ =>
      have hempty : arguments = [] → arguments.length ≤ maximumArguments := by
        rintro rfl
        exact Nat.zero_le _
      simp [remarks, Strict, callee.remarks_eq_nil_iff, remarksRow_eq_nil_iff 0 arguments]
      exact fun _ _ => hempty
  | unary _ operand => simp [remarks, Strict, operand.remarks_eq_nil_iff]
  | binary left _ right =>
      simp [remarks, Strict, left.remarks_eq_nil_iff, right.remarks_eq_nil_iff]
  | assign target equals value =>
      have htarget := target.remarks_eq_nil_iff
      have hvalue := value.remarks_eq_nil_iff
      cases target <;> simp_all [remarks, targetRemarks, Strict]

theorem remarksRow_eq_nil_iff (count : Nat) (arguments : List Phrase) :
    remarksRow count arguments = [] ↔
      (arguments = [] ∨ count + arguments.length ≤ maximumArguments) ∧ StrictRow arguments := by
  match arguments with
  | [] => simp [remarksRow, StrictRow]
  | first :: rest =>
      have hrest := remarksRow_eq_nil_iff (count + 1) rest
      have hfirst := first.remarks_eq_nil_iff
      simp [remarksRow, StrictRow, countRemarks, hrest, hfirst]
      grind

end

end Phrase

end Treewalk
