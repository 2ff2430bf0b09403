import Mathlib.Computability.Language
import Mathlib.Order.CompletePartialOrder
import Treewalk.Proofs.Grammar.Nearest

/-!
The grammar as languages over tokens, one for each kind of phrase and clause. Each language takes
in what the rules of the grammar put together: sums are choices, products stand one behind the
other, and a star is a row.
-/

namespace Treewalk

open Computability

/-- The single tokens of some kinds. -/
def Token.ofKinds (kinds : List TokenKind) : Language Token :=
  {tokens | ∃ token : Token, token.kind ∈ kinds ∧ [token] = tokens}

theorem Token.mem_ofKinds {kinds : List TokenKind} {token : Token} (h : token.kind ∈ kinds) :
    [token] ∈ ofKinds kinds :=
  ⟨token, h, rfl⟩

theorem Token.exists_mem_ofKinds (kind : TokenKind) : ∃ tokens, tokens ∈ ofKinds [kind] :=
  ⟨_, ⟨kind, ⟨0, 0, ""⟩, none, 1⟩, by simp, rfl⟩

open Token (ofKinds)

namespace Level

def language (level : Level) : Language Token :=
  {tokens | ∃ phrase : Phrase, phrase.Fits level ∧ phrase.tokens = tokens}

variable {level : Level}

theorem language_tighter_le (level : Level) : level.tighter.language ≤ level.language := by
  rintro _ ⟨phrase, hfits, rfl⟩
  exact ⟨phrase, .tighter hfits, rfl⟩

theorem ofKinds_identifier_le : ofKinds [.identifier] ≤ primary.language := by
  rintro _ ⟨name, hname, rfl⟩
  exact ⟨.var name, .var (by simpa using hname), by simp [Phrase.tokens]⟩

theorem primary_le : primary.language ≤ level.language := by
  cases level <;> repeat' first | exact le_rfl | refine le_trans ?_ (language_tighter_le _)

theorem exists_mem_language (level : Level) : ∃ tokens, tokens ∈ level.language := by
  obtain ⟨tokens, hmem⟩ := Token.exists_mem_ofKinds .identifier
  exact ⟨tokens, primary_le (ofKinds_identifier_le hmem)⟩

theorem nil_not_mem_language : [] ∉ level.language := by
  rintro ⟨phrase, -, htokens⟩
  exact absurd phrase.tokens_length_pos (by simp [htokens])

theorem constant_mem {token : Token} {value : Constant} (h : value.WrittenAs token) :
    [token] ∈ primary.language :=
  ⟨_, .constant h, by simp [Phrase.tokens]⟩

theorem group_le :
    ofKinds [.leftParen] * (assignment.language * ofKinds [.rightParen]) ≤ primary.language := by
  rintro _ ⟨_, ⟨opening, hopening, rfl⟩, _, ⟨_, ⟨inner, hinner, rfl⟩, _, ⟨closing, hclosing, rfl⟩,
    rfl⟩, rfl⟩
  exact ⟨.group opening inner closing, .group (by simpa using hopening) hinner
    (by simpa using hclosing), by simp [Phrase.tokens]⟩

end Level

/-- The arguments of a call, one at least, with the commas between them. -/
def Phrase.rows : Language Token :=
  {tokens | ∃ first rest commas, (∀ argument ∈ first :: rest, Fits .assignment argument) ∧
    (∀ comma ∈ commas, comma.kind = .comma) ∧ commas.length = rest.length ∧
    separated (tokensRow (first :: rest)) commas = tokens}

namespace Level

variable {level : Level}

theorem assignment_le_rows : assignment.language ≤ Phrase.rows := by
  rintro _ ⟨argument, hfits, rfl⟩
  exact ⟨argument, [], [], by simpa using hfits, by simp, rfl,
    by simp [Phrase.tokensRow, separated]⟩

theorem arguments_le :
    assignment.language * (ofKinds [.comma] * Phrase.rows + 1) ≤ Phrase.rows := by
  rw [mul_add, mul_one]
  refine add_le ?_ assignment_le_rows
  rintro _ ⟨_, ⟨argument, hfits, rfl⟩, _, ⟨_, ⟨comma, hcomma, rfl⟩, _,
    ⟨first, rest, commas, hrest, hcommas, hlength, rfl⟩, rfl⟩, rfl⟩
  refine ⟨argument, first :: rest, comma :: commas, by simpa using ⟨hfits, by simpa using hrest⟩,
    by simpa using ⟨by simpa using hcomma, hcommas⟩, by simp [hlength], ?_⟩
  simp [Phrase.tokensRow, separated]

theorem call_le : call.language *
    (ofKinds [.leftParen] * ((1 + Phrase.rows) * ofKinds [.rightParen])) ≤ call.language := by
  rintro _ ⟨_, ⟨callee, hcallee, rfl⟩, _, ⟨_, ⟨opening, hopening, rfl⟩, _, ⟨_, harguments, _,
    ⟨closing, hclosing, rfl⟩, rfl⟩, rfl⟩, rfl⟩
  have hopening : opening.kind = .leftParen := by simpa using hopening
  have hclosing : closing.kind = .rightParen := by simpa using hclosing
  rcases harguments with rfl | ⟨first, rest, commas, hfits, hcommas, hlength, rfl⟩
  · exact ⟨.call callee opening [] [] closing, .call hcallee hopening (by simp) (by simp) rfl
      hclosing, by simp [Phrase.tokens, Phrase.tokensRow, separated]⟩
  · exact ⟨.call callee opening (first :: rest) commas closing, .call hcallee hopening hfits
      hcommas (by simpa using hlength) hclosing, by simp [Phrase.tokens]⟩

theorem calls_le : primary.language *
    (ofKinds [.leftParen] * ((1 + Phrase.rows) * ofKinds [.rightParen]))∗ ≤ call.language :=
  mul_kstar_le (language_tighter_le .call) call_le

theorem unary_le :
    ofKinds [.bang, .minus] * unary.language + call.language ≤ unary.language := by
  refine add_le ?_ (language_tighter_le .unary)
  rintro _ ⟨_, ⟨operator, hoperator, rfl⟩, _, ⟨operand, hoperand, rfl⟩, rfl⟩
  exact ⟨.unary operator operand, .unary (by simpa using hoperator) hoperand,
    by simp [Phrase.tokens]⟩

theorem binary_le (h : level.isBinary) :
    level.language * (ofKinds level.operators * level.tighter.language) ≤ level.language := by
  rintro _ ⟨_, ⟨left, hleft, rfl⟩, _, ⟨_, ⟨operator, hoperator, rfl⟩, _, ⟨right, hright, rfl⟩,
    rfl⟩, rfl⟩
  exact ⟨.binary left operator right, .binary h hleft hoperator hright, by simp [Phrase.tokens]⟩

theorem chain_le (h : level.isBinary) :
    level.tighter.language * (ofKinds level.operators * level.tighter.language)∗ ≤
      level.language :=
  mul_kstar_le (language_tighter_le level) (binary_le h)

theorem assignment_le :
    disjunction.language * (ofKinds [.equal] * assignment.language + 1) ≤
      assignment.language := by
  rw [mul_add, mul_one]
  refine add_le ?_ (language_tighter_le .assignment)
  rintro _ ⟨_, ⟨target, htarget, rfl⟩, _, ⟨_, ⟨equals, hequals, rfl⟩, _, ⟨value, hvalue, rfl⟩,
    rfl⟩, rfl⟩
  exact ⟨.assign target equals value, .assign htarget (by simpa using hequals) hvalue,
    by simp [Phrase.tokens]⟩

end Level

namespace Declaration

def language : Language Token :=
  {tokens | ∃ declaration : Declaration, declaration.Fits ∧ declaration.tokens = tokens}

theorem le_language : ofKinds [.varWord] * (ofKinds [.identifier] *
    ((ofKinds [.equal] * Level.assignment.language + 1) * ofKinds [.semicolon])) ≤ language := by
  rintro _ ⟨_, ⟨keyword, hkeyword, rfl⟩, _, ⟨_, ⟨name, hname, rfl⟩, _, ⟨_, hinitial, _,
    ⟨semicolon, hsemicolon, rfl⟩, rfl⟩, rfl⟩, rfl⟩
  have hkeyword : keyword.kind = .varWord := by simpa using hkeyword
  have hname : name.kind = .identifier := by simpa using hname
  have hsemicolon : semicolon.kind = .semicolon := by simpa using hsemicolon
  rcases hinitial with ⟨_, ⟨equals, hequals, rfl⟩, _, ⟨value, hvalue, rfl⟩, rfl⟩ | rfl
  · refine ⟨⟨keyword, name, some (equals, value), semicolon⟩, ⟨hkeyword, hname, ?_, hsemicolon⟩,
      by simp [tokens, body]⟩
    rintro _ _ ⟨⟩
    exact ⟨by simpa using hequals, hvalue⟩
  · exact ⟨⟨keyword, name, none, semicolon⟩, ⟨hkeyword, hname, by simp, hsemicolon⟩,
      by simp [tokens, body]⟩

end Declaration

def Heading.language (keyword : TokenKind) : Language Token :=
  {tokens | ∃ heading : Heading, heading.Fits keyword ∧ heading.tokens = tokens}

theorem Heading.le_language {kind : TokenKind} : ofKinds [kind] * (ofKinds [.leftParen] *
    (Level.assignment.language * ofKinds [.rightParen])) ≤ language kind := by
  rintro _ ⟨_, ⟨keyword, hkeyword, rfl⟩, _, ⟨_, ⟨opening, hopening, rfl⟩, _, ⟨_,
    ⟨condition, hcondition, rfl⟩, _, ⟨closing, hclosing, rfl⟩, rfl⟩, rfl⟩, rfl⟩
  exact ⟨⟨keyword, opening, condition, closing⟩, ⟨by simpa using hkeyword, by simpa using hopening,
    hcondition, by simpa using hclosing⟩, by simp [tokens, body]⟩

theorem Heading.mul_le {kind : TokenKind} (other : Language Token) :
    ofKinds [kind] * (ofKinds [.leftParen] * (Level.assignment.language *
      (ofKinds [.rightParen] * other))) ≤ language kind * other := by
  simpa only [mul_assoc] using mul_le_mul' le_language (le_refl other)

def Initial.language : Language Token :=
  {tokens | ∃ initial : Initial, initial.Fits ∧ initial.tokens = tokens}

theorem Initial.le_language : ofKinds [.semicolon] + (Declaration.language +
    Level.assignment.language * ofKinds [.semicolon]) ≤ language := by
  rintro _ (⟨semicolon, hsemicolon, rfl⟩ | ⟨declaration, hdeclaration, rfl⟩ |
    ⟨_, ⟨value, hvalue, rfl⟩, _, ⟨semicolon, hsemicolon, rfl⟩, rfl⟩)
  · exact ⟨.none semicolon, .none (by simpa using hsemicolon), rfl⟩
  · exact ⟨.declaration declaration, .declaration hdeclaration, rfl⟩
  · exact ⟨.expression value semicolon, .expression hvalue (by simpa using hsemicolon), rfl⟩

def Counting.language : Language Token :=
  {tokens | ∃ counting : Counting, counting.Fits ∧ counting.tokens = tokens}

theorem Phrase.exists_option {tokens : List Token} (h : tokens ∈ 1 + Level.assignment.language) :
    ∃ phrase : Option Phrase, (∀ given, phrase = some given → given.Fits .assignment) ∧
      phrase.elim [] Phrase.tokens = tokens := by
  rcases h with rfl | ⟨phrase, hfits, rfl⟩
  · exact ⟨none, by simp, rfl⟩
  · exact ⟨some phrase, by simpa using hfits, rfl⟩

theorem Counting.le_language : ofKinds [.forWord] * (ofKinds [.leftParen] * (Initial.language *
    ((1 + Level.assignment.language) * (ofKinds [.semicolon] *
      ((1 + Level.assignment.language) * ofKinds [.rightParen]))))) ≤ language := by
  rintro _ ⟨_, ⟨keyword, hkeyword, rfl⟩, _, ⟨_, ⟨opening, hopening, rfl⟩, _, ⟨_,
    ⟨initial, hinitial, rfl⟩, _, ⟨_, hfirst, _, ⟨_, ⟨semicolon, hsemicolon, rfl⟩, _,
    ⟨_, hsecond, _, ⟨closing, hclosing, rfl⟩, rfl⟩, rfl⟩, rfl⟩, rfl⟩, rfl⟩, rfl⟩
  obtain ⟨condition, hcondition, rfl⟩ := Phrase.exists_option hfirst
  obtain ⟨increment, hincrement, rfl⟩ := Phrase.exists_option hsecond
  exact ⟨⟨keyword, opening, initial, condition, semicolon, increment, closing⟩,
    ⟨by simpa using hkeyword, by simpa using hopening, hinitial, hcondition,
      by simpa using hsemicolon, hincrement, by simpa using hclosing⟩, by simp [tokens, body]⟩

theorem Counting.mul_le (other : Language Token) :
    ofKinds [.forWord] * (ofKinds [.leftParen] * (Initial.language *
      ((1 + Level.assignment.language) * (ofKinds [.semicolon] *
        ((1 + Level.assignment.language) * (ofKinds [.rightParen] * other)))))) ≤
      language * other := by
  simpa only [mul_assoc] using mul_le_mul' le_language (le_refl other)

namespace Clause

def Place.language (place : Place) : Language Token :=
  {tokens | ∃ clause : Clause, clause.Fits place ∧ clause.tokens = tokens}

namespace Place

theorem statement_le : statement.language ≤ declaration.language := by
  rintro _ ⟨clause, hfits, rfl⟩
  exact ⟨clause, .statement hfits, rfl⟩

theorem declare_le : Declaration.language ≤ declaration.language := by
  rintro _ ⟨declared, hfits, rfl⟩
  exact ⟨.declare declared, .declare hfits, by simp [tokens]⟩

theorem nil_not_mem_language (place : Place) : [] ∉ place.language := by
  rintro ⟨clause, -, htokens⟩
  cases clause <;>
    simp [tokens, Declaration.tokens, Heading.tokens, Counting.tokens] at htokens

theorem length_pos {place : Place} {tokens : List Token} (h : tokens ∈ place.language) :
    0 < tokens.length :=
  List.length_pos_iff.mpr fun hnil => place.nil_not_mem_language (hnil ▸ h)

theorem expression_le :
    Level.assignment.language * ofKinds [.semicolon] ≤ statement.language := by
  rintro _ ⟨_, ⟨value, hvalue, rfl⟩, _, ⟨semicolon, hsemicolon, rfl⟩, rfl⟩
  exact ⟨.expression value semicolon, .expression hvalue (by simpa using hsemicolon),
    by simp [tokens]⟩

theorem print_le : ofKinds [.printWord] * (Level.assignment.language * ofKinds [.semicolon]) ≤
    statement.language := by
  rintro _ ⟨_, ⟨keyword, hkeyword, rfl⟩, _, ⟨_, ⟨value, hvalue, rfl⟩, _,
    ⟨semicolon, hsemicolon, rfl⟩, rfl⟩, rfl⟩
  exact ⟨.print keyword value semicolon, .print (by simpa using hkeyword) hvalue
    (by simpa using hsemicolon), by simp [tokens]⟩

theorem conditional_le : Heading.language .ifWord * (statement.language *
    (ofKinds [.elseWord] * statement.language + 1)) ≤ statement.language := by
  rintro _ ⟨_, ⟨heading, hheading, rfl⟩, _, ⟨_, ⟨consequent, hconsequent, rfl⟩, _, halternative,
    rfl⟩, rfl⟩
  rcases halternative with ⟨_, ⟨word, hword, rfl⟩, _, ⟨alternative, halternative, rfl⟩, rfl⟩ | rfl
  · exact ⟨.choice heading consequent word alternative, .choice hheading hconsequent
      (by simpa using hword) halternative, by simp [tokens]⟩
  · exact ⟨.conditional heading consequent, .conditional hheading hconsequent, by simp [tokens]⟩

theorem whileLoop_le :
    Heading.language .whileWord * statement.language ≤ statement.language := by
  rintro _ ⟨_, ⟨heading, hheading, rfl⟩, _, ⟨body, hbody, rfl⟩, rfl⟩
  exact ⟨.whileLoop heading body, .whileLoop hheading hbody, by simp [tokens]⟩

theorem forLoop_le : Counting.language * statement.language ≤ statement.language := by
  rintro _ ⟨_, ⟨counting, hcounting, rfl⟩, _, ⟨body, hbody, rfl⟩, rfl⟩
  exact ⟨.forLoop counting body, .forLoop hcounting hbody, by simp [tokens]⟩

end Place

end Clause

/-- The sentences of the documented grammar, relaxed in that anything of the level of disjunctions
may stand before an equals sign and that calls take any number of arguments. To which conditional
an alternative belongs is left open here, since it makes no difference to the tokens. -/
def Listing.sentences : Language Token :=
  {tokens | ∃ listing : Listing, (∀ clause ∈ listing, clause.Fits .declaration) ∧
    listing.tokens = tokens}

theorem Listing.sentences_eq : sentences = Clause.Place.declaration.language∗ := by
  ext tokens
  constructor
  · rintro ⟨listing, hfits, rfl⟩
    refine ⟨listing.map Clause.tokens, ?_, ?_⟩
    · rw [Listing.tokens]
      clear hfits
      induction listing with
      | nil => simp [Clause.tokensRow]
      | cons first rest ih => simp [Clause.tokensRow, ih]
    · simpa using fun clause hmem => ⟨clause, hfits clause hmem, rfl⟩
  · rintro ⟨rows, rfl, hrows⟩
    induction rows with
    | nil => exact ⟨[], by simp, rfl⟩
    | cons first rest ih =>
        obtain ⟨clause, hfits, rfl⟩ := hrows first (by simp)
        obtain ⟨listing, hlisting, htokens⟩ := ih fun row hmem => hrows row (.tail _ hmem)
        refine ⟨clause :: listing, by simpa using ⟨hfits, hlisting⟩, ?_⟩
        rw [Listing.tokens] at htokens
        rw [Listing.tokens, Clause.tokensRow, htokens, List.flatten_cons]

theorem Listing.nil_mem_sentences : [] ∈ sentences :=
  ⟨[], by simp, rfl⟩

theorem Listing.append_mem_sentences {tokens others : List Token}
    (h : tokens ∈ Clause.Place.declaration.language) (hothers : others ∈ sentences) :
    tokens ++ others ∈ sentences := by
  have hle : Clause.Place.declaration.language * sentences ≤ sentences := by
    rw [sentences_eq]
    exact mul_kstar_le_kstar
  exact hle (Language.append_mem_mul h hothers)

theorem Clause.Place.block_le : ofKinds [.leftBrace] * (declaration.language∗ *
    ofKinds [.rightBrace]) ≤ statement.language := by
  rw [← Listing.sentences_eq]
  rintro _ ⟨_, ⟨opening, hopening, rfl⟩, _, ⟨_, ⟨body, hbody, rfl⟩, _, ⟨closing, hclosing, rfl⟩,
    rfl⟩, rfl⟩
  exact ⟨.block opening body closing, .block (by simpa using hopening) hbody
    (by simpa using hclosing), by simp [tokens, Listing.tokens]⟩

theorem Clause.Place.exists_mem_language (place : Place) : ∃ tokens, tokens ∈ place.language := by
  obtain ⟨value, hvalue⟩ := Level.exists_mem_language .assignment
  obtain ⟨semicolon, hsemicolon⟩ := Token.exists_mem_ofKinds .semicolon
  have hstatement := expression_le (Language.append_mem_mul hvalue hsemicolon)
  cases place with
  | statement => exact ⟨_, hstatement⟩
  | declaration => exact ⟨_, statement_le hstatement⟩

end Treewalk
