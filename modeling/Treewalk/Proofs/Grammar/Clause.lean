import Treewalk.Parsing.Program
import Treewalk.Proofs.Grammar.Phrase

/-!
Clauses: statements and declarations with all the tokens by which they are written, counting loops
included. The trees of clauses have no counting loops: these are blocks and loops there. A listing
is the row of clauses of a whole program.
-/

namespace Treewalk

/-- A declaration of a variable; the token before the initial value is its equals sign. -/
structure Declaration where
  keyword : Token
  name : Token
  initial : Option (Token × Phrase)
  semicolon : Token

/-- The condition of a conditional or loop, with the tokens around it. -/
structure Heading where
  keyword : Token
  opening : Token
  condition : Phrase
  closing : Token

inductive Initial where
  | none (semicolon : Token)
  | declaration (declaration : Declaration)
  | expression (value : Phrase) (semicolon : Token)

/-- The three clauses of a counting loop, with the tokens around them. -/
structure Counting where
  keyword : Token
  opening : Token
  initial : Initial
  condition : Option Phrase
  semicolon : Token
  increment : Option Phrase
  closing : Token

inductive Clause where
  | expression (value : Phrase) (semicolon : Token)
  | print (keyword : Token) (value : Phrase) (semicolon : Token)
  | declare (declaration : Declaration)
  | block (opening : Token) (body : List Clause) (closing : Token)
  | conditional (heading : Heading) (consequent : Clause)
  | choice (heading : Heading) (consequent : Clause) (elseWord : Token) (alternative : Clause)
  | whileLoop (heading : Heading) (body : Clause)
  | forLoop (counting : Counting) (body : Clause)

namespace Declaration

def body (declaration : Declaration) : List Token :=
  match declaration.initial with
  | none => [declaration.name, declaration.semicolon]
  | some (equals, value) =>
      declaration.name :: equals :: (value.tokens ++ [declaration.semicolon])

def tokens (declaration : Declaration) : List Token :=
  declaration.keyword :: declaration.body

def tree (declaration : Declaration) : Stmt :=
  .declare declaration.name (declaration.initial.map fun initial => initial.2.tree)

def remarks (declaration : Declaration) : List Remark :=
  declaration.initial.elim [] fun initial => initial.2.remarks

structure Fits (declaration : Declaration) : Prop where
  keyword : declaration.keyword.kind = .varWord
  name : declaration.name.kind = .identifier
  initial : ∀ equals value, declaration.initial = some (equals, value) →
    equals.kind = .equal ∧ value.Fits .assignment
  semicolon : declaration.semicolon.kind = .semicolon

def Strict (declaration : Declaration) : Prop :=
  ∀ equals value, declaration.initial = some (equals, value) → value.Strict

end Declaration

namespace Heading

def body (heading : Heading) : List Token :=
  heading.opening :: (heading.condition.tokens ++ [heading.closing])

def tokens (heading : Heading) : List Token :=
  heading.keyword :: heading.body

structure Fits (keyword : TokenKind) (heading : Heading) : Prop where
  keyword : heading.keyword.kind = keyword
  opening : heading.opening.kind = .leftParen
  condition : heading.condition.Fits .assignment
  closing : heading.closing.kind = .rightParen

end Heading

namespace Initial

def tokens : Initial → List Token
  | none semicolon => [semicolon]
  | declaration declared => declared.tokens
  | expression value semicolon => value.tokens ++ [semicolon]

def tree : Initial → Option Stmt
  | none _ => .none
  | declaration declared => some declared.tree
  | expression value _ => some (.expression value.tree)

def remarks : Initial → List Remark
  | none _ => []
  | declaration declared => declared.remarks
  | expression value _ => value.remarks

inductive Fits : Initial → Prop where
  | none {semicolon : Token} : semicolon.kind = .semicolon → Fits (.none semicolon)
  | declaration {declaration : Declaration} : declaration.Fits → Fits (.declaration declaration)
  | expression {value : Phrase} {semicolon : Token} : value.Fits .assignment →
      semicolon.kind = .semicolon → Fits (.expression value semicolon)

def Strict : Initial → Prop
  | none _ => True
  | declaration declared => declared.Strict
  | expression value _ => value.Strict

end Initial

namespace Counting

def body (counting : Counting) : List Token :=
  counting.opening :: (counting.initial.tokens ++
    (counting.condition.elim [] Phrase.tokens ++ counting.semicolon ::
      (counting.increment.elim [] Phrase.tokens ++ [counting.closing])))

def tokens (counting : Counting) : List Token :=
  counting.keyword :: counting.body

def remarks (counting : Counting) : List Remark :=
  counting.initial.remarks ++ counting.condition.elim [] Phrase.remarks ++
    counting.increment.elim [] Phrase.remarks

/-- The tree of the loop over a body. The loop with its increment is the loop over a block of the
body and the increment; with an initial clause, the loop stands in a block behind that clause. -/
def tree (counting : Counting) (body : Stmt) : Stmt :=
  let inner : Stmt :=
    match counting.increment with
    | none => body
    | some increment => .block [body, .expression increment.tree]
  let loop : Stmt :=
    match counting.condition with
    | none => .loop (.constant (.boolean true)) inner
    | some condition => .loop condition.tree inner
  match counting.initial.tree with
  | none => loop
  | some initial => .block [initial, loop]

structure Fits (counting : Counting) : Prop where
  keyword : counting.keyword.kind = .forWord
  opening : counting.opening.kind = .leftParen
  initial : counting.initial.Fits
  condition : ∀ condition, counting.condition = some condition → condition.Fits .assignment
  semicolon : counting.semicolon.kind = .semicolon
  increment : ∀ increment, counting.increment = some increment → increment.Fits .assignment
  closing : counting.closing.kind = .rightParen

structure Strict (counting : Counting) : Prop where
  initial : counting.initial.Strict
  condition : ∀ condition, counting.condition = some condition → condition.Strict
  increment : ∀ increment, counting.increment = some increment → increment.Strict

end Counting

namespace Clause

mutual

def tokens : Clause → List Token
  | expression value semicolon => value.tokens ++ [semicolon]
  | print keyword value semicolon => keyword :: (value.tokens ++ [semicolon])
  | declare declaration => declaration.tokens
  | block opening body closing => opening :: (tokensRow body ++ [closing])
  | conditional heading consequent => heading.tokens ++ consequent.tokens
  | choice heading consequent elseWord alternative =>
      heading.tokens ++ (consequent.tokens ++ elseWord :: alternative.tokens)
  | whileLoop heading body => heading.tokens ++ body.tokens
  | forLoop counting body => counting.tokens ++ body.tokens

def tokensRow : List Clause → List Token
  | [] => []
  | first :: rest => first.tokens ++ tokensRow rest

end

mutual

def tree : Clause → Stmt
  | expression value _ => .expression value.tree
  | print _ value _ => .print value.tree
  | declare declaration => declaration.tree
  | block _ body _ => .block (treeRow body)
  | conditional heading consequent => .conditional heading.condition.tree consequent.tree none
  | choice heading consequent _ alternative =>
      .conditional heading.condition.tree consequent.tree (some alternative.tree)
  | whileLoop heading body => .loop heading.condition.tree body.tree
  | forLoop counting body => counting.tree body.tree

def treeRow : List Clause → List Stmt
  | [] => []
  | first :: rest => first.tree :: treeRow rest

end

mutual

def remarks : Clause → List Remark
  | expression value _ => value.remarks
  | print _ value _ => value.remarks
  | declare declaration => declaration.remarks
  | block _ body _ => remarksRow body
  | conditional heading consequent => heading.condition.remarks ++ consequent.remarks
  | choice heading consequent _ alternative =>
      heading.condition.remarks ++ (consequent.remarks ++ alternative.remarks)
  | whileLoop heading body => heading.condition.remarks ++ body.remarks
  | forLoop counting body => counting.remarks ++ body.remarks

def remarksRow : List Clause → List Remark
  | [] => []
  | first :: rest => first.remarks ++ remarksRow rest

end

mutual

def Strict : Clause → Prop
  | expression value _ => value.Strict
  | print _ value _ => value.Strict
  | declare declaration => declaration.Strict
  | block _ body _ => StrictRow body
  | conditional heading consequent => heading.condition.Strict ∧ consequent.Strict
  | choice heading consequent _ alternative =>
      heading.condition.Strict ∧ consequent.Strict ∧ alternative.Strict
  | whileLoop heading body => heading.condition.Strict ∧ body.Strict
  | forLoop counting body => counting.Strict ∧ body.Strict

def StrictRow : List Clause → Prop
  | [] => True
  | first :: rest => first.Strict ∧ StrictRow rest

end

/-- Whether the clause ends in a conditional that could take an alternative. -/
def endsOpen : Clause → Bool
  | conditional _ _ => true
  | choice _ _ _ alternative => alternative.endsOpen
  | whileLoop _ body => body.endsOpen
  | forLoop _ body => body.endsOpen
  | _ => false

mutual

/-- Every alternative belongs to the nearest conditional that could take it. -/
def Nearest : Clause → Prop
  | expression _ _ => True
  | print _ _ _ => True
  | declare _ => True
  | block _ body _ => NearestRow body
  | conditional _ consequent => consequent.Nearest
  | choice _ consequent _ alternative =>
      consequent.endsOpen = false ∧ consequent.Nearest ∧ alternative.Nearest
  | whileLoop _ body => body.Nearest
  | forLoop _ body => body.Nearest

def NearestRow : List Clause → Prop
  | [] => True
  | first :: rest => first.Nearest ∧ NearestRow rest

end

/-- The two places where a clause may stand: those of declarations hold statements as well. -/
inductive Place where
  | statement | declaration

/-- The derivations of the grammar, up to the mistakes that strictness excludes. -/
inductive Fits : Place → Clause → Prop where
  | expression {value : Phrase} {semicolon : Token} : value.Fits .assignment →
      semicolon.kind = .semicolon → Fits .statement (.expression value semicolon)
  | print {keyword semicolon : Token} {value : Phrase} : keyword.kind = .printWord →
      value.Fits .assignment → semicolon.kind = .semicolon →
      Fits .statement (.print keyword value semicolon)
  | block {opening closing : Token} {body : List Clause} : opening.kind = .leftBrace →
      (∀ clause ∈ body, Fits .declaration clause) → closing.kind = .rightBrace →
      Fits .statement (.block opening body closing)
  | conditional {heading : Heading} {consequent : Clause} : heading.Fits .ifWord →
      Fits .statement consequent → Fits .statement (.conditional heading consequent)
  | choice {heading : Heading} {consequent alternative : Clause} {elseWord : Token} :
      heading.Fits .ifWord → Fits .statement consequent → elseWord.kind = .elseWord →
      Fits .statement alternative →
      Fits .statement (.choice heading consequent elseWord alternative)
  | whileLoop {heading : Heading} {body : Clause} : heading.Fits .whileWord →
      Fits .statement body → Fits .statement (.whileLoop heading body)
  | forLoop {counting : Counting} {body : Clause} : counting.Fits →
      Fits .statement body → Fits .statement (.forLoop counting body)
  | declare {declaration : Declaration} : declaration.Fits →
      Fits .declaration (.declare declaration)
  | statement {clause : Clause} : Fits .statement clause → Fits .declaration clause

theorem treeRow_eq_map (row : List Clause) : treeRow row = row.map tree := by
  induction row with
  | nil => rfl
  | cons first rest ih => simp [treeRow, ih]

theorem tokensRow_append (first second : List Clause) :
    tokensRow (first ++ second) = tokensRow first ++ tokensRow second := by
  induction first with
  | nil => rfl
  | cons clause first ih => rw [List.cons_append, tokensRow, tokensRow, ih, List.append_assoc]

theorem strictRow_iff {row : List Clause} : StrictRow row ↔ ∀ clause ∈ row, clause.Strict := by
  induction row with
  | nil => simp [StrictRow]
  | cons first rest ih => simp [StrictRow, ih]

theorem nearestRow_iff {row : List Clause} : NearestRow row ↔ ∀ clause ∈ row, clause.Nearest := by
  induction row with
  | nil => simp [NearestRow]
  | cons first rest ih => simp [NearestRow, ih]

end Clause

/-! The token that ends a text belongs to no clause. -/

theorem Declaration.Fits.kind_ne_endOfText {declaration : Declaration} (h : declaration.Fits) :
    ∀ token ∈ declaration.tokens, token.kind ≠ .endOfText := by
  obtain ⟨keyword, name, initial, semicolon⟩ := declaration
  obtain ⟨hkeyword, hname, hinitial, hsemicolon⟩ := h
  cases initial with
  | none => simp_all [tokens, body]
  | some initial =>
      obtain ⟨hequals, hvalue⟩ := hinitial _ _ rfl
      simp_all [tokens, body, or_imp, forall_and]
      exact hvalue.kind_ne_endOfText

theorem Heading.Fits.kind_ne_endOfText {kind : TokenKind} {heading : Heading}
    (h : heading.Fits kind) (hkind : kind ≠ .endOfText) :
    ∀ token ∈ heading.tokens, token.kind ≠ .endOfText := by
  simpa [tokens, body, or_imp, forall_and, h.keyword, h.opening, h.closing, hkind]
    using h.condition.kind_ne_endOfText

theorem Initial.Fits.kind_ne_endOfText {initial : Initial} (h : initial.Fits) :
    ∀ token ∈ initial.tokens, token.kind ≠ .endOfText := by
  cases h with
  | none hsemicolon => simp [tokens, hsemicolon]
  | declaration hdeclaration => exact hdeclaration.kind_ne_endOfText
  | expression hvalue hsemicolon =>
      simpa [tokens, or_imp, forall_and, hsemicolon] using hvalue.kind_ne_endOfText

theorem Counting.Fits.kind_ne_endOfText {counting : Counting} (h : counting.Fits) :
    ∀ token ∈ counting.tokens, token.kind ≠ .endOfText := by
  have hoptional (phrase : Option Phrase)
      (hfits : ∀ given, phrase = some given → given.Fits .assignment) :
      ∀ token ∈ phrase.elim [] Phrase.tokens, token.kind ≠ .endOfText := by
    cases phrase with
    | none => simp
    | some given => exact (hfits given rfl).kind_ne_endOfText
  simpa [tokens, body, or_imp, forall_and, h.keyword, h.opening, h.semicolon, h.closing] using
    ⟨h.initial.kind_ne_endOfText, hoptional _ h.condition, hoptional _ h.increment⟩

namespace Clause

theorem forall_mem_tokensRow {row : List Clause} {holds : Token → Prop} :
    (∀ token ∈ tokensRow row, holds token) ↔
      ∀ clause ∈ row, ∀ token ∈ clause.tokens, holds token := by
  induction row with
  | nil => simp [tokensRow]
  | cons first rest ih => simp [tokensRow, or_imp, forall_and, ih]

theorem Fits.kind_ne_endOfText {place : Place} {clause : Clause} (h : clause.Fits place) :
    ∀ token ∈ clause.tokens, token.kind ≠ .endOfText := by
  induction h with
  | expression hvalue hsemicolon =>
      simpa [tokens, or_imp, forall_and, hsemicolon] using hvalue.kind_ne_endOfText
  | print hkeyword hvalue hsemicolon =>
      simpa [tokens, or_imp, forall_and, hkeyword, hsemicolon] using hvalue.kind_ne_endOfText
  | block hopening _ hclosing ih =>
      have hbody := forall_mem_tokensRow.mpr ih
      simpa [tokens, or_imp, forall_and, hopening, hclosing] using hbody
  | conditional hheading _ ih =>
      simpa [tokens, or_imp, forall_and] using ⟨hheading.kind_ne_endOfText (by simp), ih⟩
  | choice hheading _ helse _ ihConsequent ihAlternative =>
      simpa [tokens, or_imp, forall_and, helse] using
        ⟨hheading.kind_ne_endOfText (by simp), ihConsequent, ihAlternative⟩
  | whileLoop hheading _ ih =>
      simpa [tokens, or_imp, forall_and] using ⟨hheading.kind_ne_endOfText (by simp), ih⟩
  | forLoop hcounting _ ih =>
      simpa [tokens, or_imp, forall_and] using ⟨hcounting.kind_ne_endOfText, ih⟩
  | declare hdeclaration =>
      rw [tokens]
      exact hdeclaration.kind_ne_endOfText
  | statement _ ih => exact ih

end Clause

theorem Declaration.remarks_eq_nil_iff (declaration : Declaration) :
    declaration.remarks = [] ↔ declaration.Strict := by
  obtain ⟨keyword, name, initial, semicolon⟩ := declaration
  cases initial with
  | none => simp [remarks, Strict]
  | some initial => simp [remarks, Strict, Phrase.remarks_eq_nil_iff, Prod.ext_iff]

theorem Initial.remarks_eq_nil_iff (initial : Initial) :
    initial.remarks = [] ↔ initial.Strict := by
  cases initial with
  | none _ => simp [remarks, Strict]
  | declaration declared => exact declared.remarks_eq_nil_iff
  | expression value _ => exact value.remarks_eq_nil_iff

theorem Counting.remarks_eq_nil_iff (counting : Counting) :
    counting.remarks = [] ↔ counting.Strict := by
  obtain ⟨keyword, opening, initial, condition, semicolon, increment, closing⟩ := counting
  have hinitial := initial.remarks_eq_nil_iff
  constructor
  · intro h
    simp only [remarks, List.append_eq_nil_iff] at h
    obtain ⟨⟨hfirst, hcondition⟩, hincrement⟩ := h
    refine ⟨hinitial.mp hfirst, ?_, ?_⟩
    · rintro condition rfl
      exact condition.remarks_eq_nil_iff.mp hcondition
    · rintro increment rfl
      exact increment.remarks_eq_nil_iff.mp hincrement
  · rintro ⟨hfirst, hcondition, hincrement⟩
    simp only [remarks, List.append_eq_nil_iff]
    refine ⟨⟨hinitial.mpr hfirst, ?_⟩, ?_⟩
    · cases condition with
      | none => rfl
      | some condition => exact condition.remarks_eq_nil_iff.mpr (hcondition _ rfl)
    · cases increment with
      | none => rfl
      | some increment => exact increment.remarks_eq_nil_iff.mpr (hincrement _ rfl)

theorem Counting.tree_eq (counting : Counting) (body : Stmt) :
    counting.tree body = .counting counting.initial.tree (counting.condition.map Phrase.tree)
      (counting.increment.map Phrase.tree) body := by
  obtain ⟨keyword, opening, initial, condition, semicolon, increment, closing⟩ := counting
  cases initial <;> cases condition <;> cases increment <;> rfl

namespace Clause

mutual

theorem remarks_eq_nil_iff (clause : Clause) : clause.remarks = [] ↔ clause.Strict := by
  match clause with
  | expression value _ | print _ value _ => simp [remarks, Strict, value.remarks_eq_nil_iff]
  | declare declaration => simp [remarks, Strict, declaration.remarks_eq_nil_iff]
  | block _ body _ => simp [remarks, Strict, remarksRow_eq_nil_iff body]
  | conditional heading consequent =>
      simp [remarks, Strict, heading.condition.remarks_eq_nil_iff,
        consequent.remarks_eq_nil_iff]
  | choice heading consequent _ alternative =>
      simp [remarks, Strict, heading.condition.remarks_eq_nil_iff,
        consequent.remarks_eq_nil_iff, alternative.remarks_eq_nil_iff]
  | whileLoop heading body =>
      simp [remarks, Strict, heading.condition.remarks_eq_nil_iff, body.remarks_eq_nil_iff]
  | forLoop counting body =>
      simp [remarks, Strict, counting.remarks_eq_nil_iff, body.remarks_eq_nil_iff]

theorem remarksRow_eq_nil_iff (row : List Clause) : remarksRow row = [] ↔ StrictRow row := by
  match row with
  | [] => simp [remarksRow, StrictRow]
  | first :: rest =>
      simp [remarksRow, StrictRow, first.remarks_eq_nil_iff, remarksRow_eq_nil_iff rest]

end

end Clause

abbrev Listing := List Clause

namespace Listing

def tokens (listing : Listing) : List Token :=
  Clause.tokensRow listing

def program (listing : Listing) : Program :=
  Clause.treeRow listing

/-- The documented grammar: derivations in which assignments are to names, calls have few enough
arguments and every alternative belongs to the nearest conditional. -/
structure WellFormed (listing : Listing) : Prop where
  fits : ∀ clause ∈ listing, clause.Fits .declaration
  strict : Clause.StrictRow listing
  nearest : Clause.NearestRow listing

end Listing

end Treewalk
