import Treewalk.Proofs.Grammar.Grouping
import Treewalk.Proofs.Parsing.Program

/-!
Redundant parentheses are harmless. With parentheses around the tokens of one of its expressions a
listing is a listing still, and its program is that of the listing with the expression as a group.
The one expression of a program that no tokens are there for is the condition that a counting loop
does without.
-/

namespace Treewalk

namespace Stmt

variable {inner : Expr}

theorem groups_block {body : List Stmt} {statement' : Stmt}
    (h : Groups inner (.block body) statement') :
    ∃ body', Program.Groups inner body body' ∧ statement' = .block body' := by
  cases h with
  | item hitem => exact ⟨_, .item hitem, rfl⟩

theorem groups_pair {first second statement' : Stmt}
    (h : Groups inner (.block [first, second]) statement') :
    (∃ first', Groups inner first first' ∧ statement' = .block [first', second]) ∨
      ∃ second', Groups inner second second' ∧ statement' = .block [first, second'] := by
  generalize hbody : [first, second] = body at h
  cases h with
  | @item before after _ _ hitem =>
      match before with
      | [] =>
          obtain ⟨rfl, rfl⟩ := List.cons.inj hbody
          exact .inl ⟨_, hitem, rfl⟩
      | [_] =>
          obtain ⟨rfl, hrest⟩ := List.cons.inj hbody
          obtain ⟨rfl, rfl⟩ := List.cons.inj hrest
          exact .inr ⟨_, hitem, rfl⟩
      | _ :: _ :: _ => simp at hbody

theorem groups_loop {condition : Expr} {body statement' : Stmt}
    (h : Groups inner (.loop condition body) statement') :
    (∃ condition', Expr.Groups inner condition condition' ∧ statement' = .loop condition' body) ∨
      ∃ body', Groups inner body body' ∧ statement' = .loop condition body' := by
  cases h with
  | test hcondition => exact .inl ⟨_, hcondition, rfl⟩
  | body hbody => exact .inr ⟨_, hbody, rfl⟩

/-- A part of a counting loop is in one of its clauses or in its body, or it is the condition that
the loop does without. -/
inductive CountingGroups (inner : Expr) (initial : Option Stmt) (condition increment : Option Expr)
    (body : Stmt) : Stmt → Prop
  | initial {given given' : Stmt} : initial = some given → Groups inner given given' →
      CountingGroups inner initial condition increment body
        (counting (some given') condition increment body)
  | condition {given given' : Expr} : condition = some given → Expr.Groups inner given given' →
      CountingGroups inner initial condition increment body
        (counting initial (some given') increment body)
  | supplied : condition = none →
      CountingGroups inner initial condition increment body
        (counting initial (some (.group (.constant (.boolean true)))) increment body)
  | increment {given given' : Expr} : increment = some given → Expr.Groups inner given given' →
      CountingGroups inner initial condition increment body
        (counting initial condition (some given') body)
  | body {body' : Stmt} : Groups inner body body' →
      CountingGroups inner initial condition increment body
        (counting initial condition increment body')

theorem groups_counting {initial : Option Stmt} {condition increment : Option Expr}
    {body statement' : Stmt}
    (h : Groups inner (counting initial condition increment body) statement') :
    CountingGroups inner initial condition increment body statement' := by
  -- the loop without its initial clause
  have hloop {loop' : Stmt} (h : Groups inner (counting none condition increment body) loop') :
      CountingGroups inner none condition increment body loop' := by
    rcases groups_loop h with ⟨condition', hcondition, rfl⟩ | ⟨body', hbody, rfl⟩
    · cases condition with
      | none =>
          cases hcondition with
          | here => exact .supplied rfl
      | some given => exact .condition rfl hcondition
    · cases increment with
      | none => exact .body hbody
      | some given =>
          rcases groups_pair hbody with ⟨body'', hinner, rfl⟩ | ⟨increment', hincrement, rfl⟩
          · exact .body hinner
          · cases hincrement with
            | expression hvalue => exact .increment rfl hvalue
  cases initial with
  | none => exact hloop h
  | some given =>
      rcases groups_pair h with ⟨initial', hinitial, rfl⟩ | ⟨loop', hgroups, rfl⟩
      · exact .initial rfl hinitial
      · cases hloop hgroups with
        | initial hnone => contradiction
        | condition hgiven hcondition => exact .condition hgiven hcondition
        | supplied hnone => exact .supplied hnone
        | increment hgiven hincrement => exact .increment hgiven hincrement
        | body hbody => exact .body hbody

end Stmt

/-! The clauses of the grammar. -/

/-- The statement is the tree of the clause, but with the condition that one of its counting loops
does without in parentheses. -/
inductive Clause.Supplies : Clause → Stmt → Prop
  | here {counting : Counting} {body : Clause} : counting.condition = none →
      Supplies (.forLoop counting body) (.counting counting.initial.tree
        (some (.group (.constant (.boolean true)))) (counting.increment.map Phrase.tree) body.tree)
  | item {opening closing : Token} {before after : List Clause} {clause : Clause}
      {statement' : Stmt} : Supplies clause statement' →
      Supplies (.block opening (before ++ clause :: after) closing)
        (.block (treeRow before ++ statement' :: treeRow after))
  | only {heading : Heading} {consequent : Clause} {consequent' : Stmt} :
      Supplies consequent consequent' →
      Supplies (.conditional heading consequent)
        (.conditional heading.condition.tree consequent' none)
  | consequent {heading : Heading} {consequent alternative : Clause} {elseWord : Token}
      {consequent' : Stmt} : Supplies consequent consequent' →
      Supplies (.choice heading consequent elseWord alternative)
        (.conditional heading.condition.tree consequent' (some alternative.tree))
  | alternative {heading : Heading} {consequent alternative : Clause} {elseWord : Token}
      {alternative' : Stmt} : Supplies alternative alternative' →
      Supplies (.choice heading consequent elseWord alternative)
        (.conditional heading.condition.tree consequent.tree (some alternative'))
  | loop {heading : Heading} {body : Clause} {body' : Stmt} : Supplies body body' →
      Supplies (.whileLoop heading body) (.loop heading.condition.tree body')
  | body {counting : Counting} {body : Clause} {body' : Stmt} : Supplies body body' →
      Supplies (.forLoop counting body) (counting.tree body')

inductive Listing.Supplies : Listing → Program → Prop
  | item {before after : List Clause} {clause : Clause} {statement' : Stmt} :
      clause.Supplies statement' →
      Listing.Supplies (before ++ clause :: after)
        (Clause.treeRow before ++ statement' :: Clause.treeRow after)

variable {inner : Expr}

namespace Declaration

variable {declaration : Declaration}

/-- The tokens are those of a strict declaration with this tree. -/
def Writes (statement : Stmt) (tokens : List Token) : Prop :=
  ∃ declaration : Declaration, declaration.Fits ∧ declaration.Strict ∧
    declaration.tree = statement ∧ declaration.tokens = tokens

theorem Fits.enclosable (h : declaration.Fits) (hstrict : declaration.Strict) {statement' : Stmt}
    (hgroups : Stmt.Groups inner declaration.tree statement') :
    inner.Enclosable declaration.tokens (Writes statement') := by
  obtain ⟨keyword, name, initial, semicolon⟩ := declaration
  cases initial with
  | none => cases hgroups
  | some initial =>
      obtain ⟨equals, value⟩ := initial
      obtain ⟨hequals, hvalue⟩ := h.initial _ _ rfl
      cases hgroups with
      | initial hgroups =>
          refine (hvalue.enclosable (hstrict _ _ rfl) hgroups).between [keyword, name, equals]
            [semicolon] ?_
          rintro _ ⟨other, hother, hstrict', rfl, rfl⟩
          refine ⟨⟨keyword, name, some (equals, other), semicolon⟩,
            ⟨h.keyword, h.name, ?_, h.semicolon⟩, ?_, rfl, rfl⟩
          · rintro _ _ ⟨⟩
            exact ⟨hequals, hother⟩
          · rintro _ _ ⟨⟩
            exact hstrict'

end Declaration

theorem Initial.Fits.enclosable {initial : Initial} (h : initial.Fits) (hstrict : initial.Strict)
    {statement statement' : Stmt} (htree : initial.tree = some statement)
    (hgroups : Stmt.Groups inner statement statement') :
    inner.Enclosable initial.tokens fun tokens => ∃ other : Initial, other.Fits ∧ other.Strict ∧
      other.tree = some statement' ∧ other.tokens = tokens := by
  cases h with
  | none => contradiction
  | declaration hdeclaration =>
      cases htree
      refine (hdeclaration.enclosable hstrict hgroups).imp ?_
      rintro _ ⟨other, hother, hstrict', rfl, rfl⟩
      exact ⟨.declaration other, .declaration hother, hstrict', rfl, rfl⟩
  | @expression value semicolon hvalue hsemicolon =>
      cases htree
      cases hgroups with
      | expression hgroups =>
          refine (hvalue.enclosable hstrict hgroups).ahead [semicolon] ?_
          rintro _ ⟨other, hother, hstrict', rfl, rfl⟩
          exact ⟨.expression other semicolon, .expression hother hsemicolon, hstrict', rfl, rfl⟩

namespace Counting

variable {counting : Counting}

/-- The tokens are those of a strict heading of a counting loop; the tree of the loop over this
body is the statement. -/
def Writes (body statement : Stmt) (tokens : List Token) : Prop :=
  ∃ counting : Counting, counting.Fits ∧ counting.Strict ∧ counting.tree body = statement ∧
    counting.tokens = tokens

theorem Fits.enclosable (h : counting.Fits) (hstrict : counting.Strict) {body statement' : Stmt}
    (hgroups : Stmt.Groups inner (counting.tree body) statement') :
    (counting.condition = none ∧ statement' = .counting counting.initial.tree
        (some (.group (.constant (.boolean true)))) (counting.increment.map Phrase.tree) body) ∨
      inner.Enclosable counting.tokens (Writes body statement') ∨
      ∃ body', Stmt.Groups inner body body' ∧ statement' = counting.tree body' := by
  rw [tree_eq] at hgroups
  obtain ⟨keyword, opening, initial, condition, semicolon, increment, closing⟩ := counting
  cases Stmt.groups_counting hgroups with
  | initial hgiven hinitial =>
      refine .inr (.inl ?_)
      refine (h.initial.enclosable hstrict.initial hgiven hinitial).between [keyword, opening]
        (condition.elim [] Phrase.tokens ++ semicolon ::
          (increment.elim [] Phrase.tokens ++ [closing])) ?_
      rintro _ ⟨other, hother, hstrict', htree, rfl⟩
      refine ⟨⟨keyword, opening, other, condition, semicolon, increment, closing⟩,
        ⟨h.keyword, h.opening, hother, h.condition, h.semicolon, h.increment, h.closing⟩,
        ⟨hstrict', hstrict.condition, hstrict.increment⟩, ?_, rfl⟩
      rw [tree_eq, htree]
  | condition hgiven hcondition =>
      obtain ⟨phrase, rfl, rfl⟩ := Option.map_eq_some_iff.mp hgiven
      have hphrase := (h.condition _ rfl).enclosable (hstrict.condition _ rfl) hcondition
      have htokens (middle : List Token) :
          keyword :: opening :: (initial.tokens ++ (middle ++ semicolon ::
              (increment.elim [] Phrase.tokens ++ [closing]))) =
            (keyword :: opening :: initial.tokens) ++ (middle ++ semicolon ::
              (increment.elim [] Phrase.tokens ++ [closing])) := by
        simp
      refine .inr (.inl ?_)
      rw [tokens, Counting.body, Option.elim_some, htokens]
      refine hphrase.between _ _ ?_
      rintro _ ⟨other, hother, hstrict', rfl, rfl⟩
      refine ⟨⟨keyword, opening, initial, some other, semicolon, increment, closing⟩,
        ⟨h.keyword, h.opening, h.initial, ?_, h.semicolon, h.increment, h.closing⟩,
        ⟨hstrict.initial, ?_, hstrict.increment⟩, ?_, ?_⟩
      · rintro _ ⟨⟩
        exact hother
      · rintro _ ⟨⟩
        exact hstrict'
      · rw [tree_eq, Option.map_some]
      · rw [tokens, Counting.body, Option.elim_some, htokens]
  | supplied hnone => exact .inl ⟨Option.map_eq_none_iff.mp hnone, rfl⟩
  | increment hgiven hincrement =>
      obtain ⟨phrase, rfl, rfl⟩ := Option.map_eq_some_iff.mp hgiven
      have hphrase := (h.increment _ rfl).enclosable (hstrict.increment _ rfl) hincrement
      have htokens (middle : List Token) :
          keyword :: opening :: (initial.tokens ++ (condition.elim [] Phrase.tokens ++ semicolon ::
              (middle ++ [closing]))) =
            (keyword :: opening :: (initial.tokens ++ (condition.elim [] Phrase.tokens ++
              [semicolon]))) ++ (middle ++ [closing]) := by
        simp
      refine .inr (.inl ?_)
      rw [tokens, Counting.body, Option.elim_some, htokens]
      refine hphrase.between _ _ ?_
      rintro _ ⟨other, hother, hstrict', rfl, rfl⟩
      refine ⟨⟨keyword, opening, initial, condition, semicolon, some other, closing⟩,
        ⟨h.keyword, h.opening, h.initial, h.condition, h.semicolon, ?_, h.closing⟩,
        ⟨hstrict.initial, hstrict.condition, ?_⟩, ?_, ?_⟩
      · rintro _ ⟨⟩
        exact hother
      · rintro _ ⟨⟩
        exact hstrict'
      · rw [tree_eq, Option.map_some]
      · rw [tokens, Counting.body, Option.elim_some, htokens]
  | body hbody => exact .inr (.inr ⟨_, hbody, (tree_eq _ _).symm⟩)

end Counting

theorem Heading.Fits.enclosable {kind : TokenKind} {heading : Heading} (h : heading.Fits kind)
    (hstrict : heading.condition.Strict) {condition' : Expr}
    (hgroups : Expr.Groups inner heading.condition.tree condition') :
    inner.Enclosable heading.tokens fun tokens => ∃ other : Heading, other.Fits kind ∧
      other.condition.Strict ∧ other.condition.tree = condition' ∧ other.tokens = tokens := by
  refine (h.condition.enclosable hstrict hgroups).between [heading.keyword, heading.opening]
    [heading.closing] ?_
  rintro _ ⟨other, hother, hstrict', rfl, rfl⟩
  exact ⟨⟨heading.keyword, heading.opening, other, heading.closing⟩,
    ⟨h.keyword, h.opening, hother, h.closing⟩, hstrict', rfl, rfl⟩

namespace Clause

variable {place : Place} {clause other : Clause}

/-- The other clause can stand where the clause stands. -/
structure Yields (place : Place) (clause other : Clause) : Prop where
  fits : other.Fits place
  strict : other.Strict
  nearest : other.Nearest
  endsOpen_eq : other.endsOpen = clause.endsOpen

/-- The tokens are those of another clause with this tree. -/
def Rewrites (place : Place) (clause : Clause) (statement : Stmt) (tokens : List Token) : Prop :=
  ∃ other, clause.Yields place other ∧ other.tree = statement ∧ other.tokens = tokens

end Clause

namespace Listing

variable {listing : Listing}

/-- The tokens are those of a listing with this program. -/
def Writes (program : Program) (tokens : List Token) : Prop :=
  ∃ listing : Listing, listing.WellFormed ∧ listing.program = program ∧ listing.tokens = tokens

theorem WellFormed.enclosable_row (h : listing.WellFormed)
    (hclauses : ∀ clause ∈ listing, ∀ {statement'}, Stmt.Groups inner clause.tree statement' →
      clause.Supplies statement' ∨
        inner.Enclosable clause.tokens (clause.Rewrites .declaration statement'))
    {program' : Program} (hgroups : Program.Groups inner listing.program program') :
    listing.Supplies program' ∨ inner.Enclosable listing.tokens (Writes program') := by
  rw [program, Clause.treeRow_eq_map] at hgroups
  generalize hrow : listing.map Clause.tree = row at hgroups
  cases hgroups with
  | item hstatement =>
      obtain ⟨before, others, rfl, rfl, hothers⟩ := List.map_eq_append_iff.mp hrow
      obtain ⟨clause, after, rfl, rfl, rfl⟩ := List.map_eq_cons_iff.mp hothers
      rw [← Clause.treeRow_eq_map, ← Clause.treeRow_eq_map]
      refine (hclauses clause (by simp) hstatement).imp .item fun henclosable => ?_
      rw [tokens, Clause.tokensRow_append, Clause.tokensRow]
      refine henclosable.between _ _ ?_
      rintro _ ⟨other, hother, rfl, rfl⟩
      obtain ⟨hfits, hstrict, hnearest⟩ := h
      rw [Clause.strictRow_iff, List.forall_mem_append, List.forall_mem_cons] at hstrict
      rw [Clause.nearestRow_iff, List.forall_mem_append, List.forall_mem_cons] at hnearest
      rw [List.forall_mem_append, List.forall_mem_cons] at hfits
      refine ⟨before ++ other :: after, ⟨?_, ?_, ?_⟩, ?_, ?_⟩
      · rw [List.forall_mem_append, List.forall_mem_cons]
        exact ⟨hfits.1, hother.fits, hfits.2.2⟩
      · rw [Clause.strictRow_iff, List.forall_mem_append, List.forall_mem_cons]
        exact ⟨hstrict.1, hother.strict, hstrict.2.2⟩
      · rw [Clause.nearestRow_iff, List.forall_mem_append, List.forall_mem_cons]
        exact ⟨hnearest.1, hother.nearest, hnearest.2.2⟩
      · simp [program, Clause.treeRow_eq_map]
      · rw [tokens, Clause.tokensRow_append, Clause.tokensRow]

end Listing

namespace Clause

variable {place : Place} {clause : Clause}

/-- Every expression within a clause can stand in parentheses, but for the conditions that counting
loops do without. -/
theorem Fits.enclosable (h : clause.Fits place) (hstrict : clause.Strict)
    (hnearest : clause.Nearest) {statement' : Stmt}
    (hgroups : Stmt.Groups inner clause.tree statement') :
    clause.Supplies statement' ∨
      inner.Enclosable clause.tokens (clause.Rewrites place statement') := by
  induction h generalizing statement' with
  | @expression value semicolon hvalue hsemicolon =>
      cases hgroups with
      | expression hgroups =>
          refine .inr ((hvalue.enclosable hstrict hgroups).ahead [semicolon] ?_)
          rintro _ ⟨other, hother, hstrict', rfl, rfl⟩
          exact ⟨.expression other semicolon,
            ⟨.expression hother hsemicolon, hstrict', trivial, rfl⟩, rfl, rfl⟩
  | @print keyword semicolon value hkeyword hvalue hsemicolon =>
      cases hgroups with
      | print hgroups =>
          refine .inr ((hvalue.enclosable hstrict hgroups).between [keyword] [semicolon] ?_)
          rintro _ ⟨other, hother, hstrict', rfl, rfl⟩
          exact ⟨.print keyword other semicolon,
            ⟨.print hkeyword hother hsemicolon, hstrict', trivial, rfl⟩, rfl, rfl⟩
  | @block opening closing body hopening hbody hclosing ih =>
      have hlisting : Listing.WellFormed body := ⟨hbody, hstrict, hnearest⟩
      rw [Strict, strictRow_iff] at hstrict
      rw [Nearest, nearestRow_iff] at hnearest
      obtain ⟨body', hrow, rfl⟩ := Stmt.groups_block hgroups
      have hclauses := hlisting.enclosable_row (fun clause hclause _ =>
        ih clause hclause (hstrict clause hclause) (hnearest clause hclause)) hrow
      rcases hclauses with hsupplies | henclosable
      · cases hsupplies with
        | item hclause => exact .inl (.item hclause)
      · refine .inr (henclosable.between [opening] [closing] ?_)
        rintro _ ⟨other, hother, rfl, rfl⟩
        exact ⟨.block opening other closing, ⟨.block hopening hother.fits hclosing, hother.strict,
          hother.nearest, rfl⟩, rfl, rfl⟩
  | @conditional heading consequent hheading hconsequent ih =>
      obtain ⟨hcondition, hstrict⟩ := hstrict
      cases hgroups with
      | condition hgroups =>
          refine .inr ((hheading.enclosable hcondition hgroups).ahead _ ?_)
          rintro _ ⟨other, hother, hcondition', rfl, rfl⟩
          exact ⟨.conditional other consequent,
            ⟨.conditional hother hconsequent, ⟨hcondition', hstrict⟩, hnearest, rfl⟩, rfl, rfl⟩
      | consequent hgroups =>
          refine (ih hstrict hnearest hgroups).imp .only fun henclosable => henclosable.behind _ ?_
          rintro _ ⟨other, hother, rfl, rfl⟩
          exact ⟨.conditional heading other, ⟨.conditional hheading hother.fits,
            ⟨hcondition, hother.strict⟩, hother.nearest, rfl⟩, rfl, rfl⟩
  | @choice heading consequent alternative elseWord hheading hconsequent helse halternative
      ihConsequent ihAlternative =>
      obtain ⟨hcondition, hstrict, hstrict'⟩ := hstrict
      obtain ⟨hclosed, hnearest, hnearest'⟩ := hnearest
      cases hgroups with
      | condition hgroups =>
          refine .inr ((hheading.enclosable hcondition hgroups).ahead _ ?_)
          rintro _ ⟨other, hother, hcondition', rfl, rfl⟩
          exact ⟨.choice other consequent elseWord alternative,
            ⟨.choice hother hconsequent helse halternative, ⟨hcondition', hstrict, hstrict'⟩,
              ⟨hclosed, hnearest, hnearest'⟩, rfl⟩, rfl, rfl⟩
      | consequent hgroups =>
          refine (ihConsequent hstrict hnearest hgroups).imp .consequent fun henclosable =>
            henclosable.between heading.tokens (elseWord :: alternative.tokens) ?_
          rintro _ ⟨other, hother, rfl, rfl⟩
          exact ⟨.choice heading other elseWord alternative,
            ⟨.choice hheading hother.fits helse halternative, ⟨hcondition, hother.strict, hstrict'⟩,
              ⟨hother.endsOpen_eq.trans hclosed, hother.nearest, hnearest'⟩, rfl⟩, rfl, rfl⟩
      | alternative hgroups =>
          have htokens (middle : List Token) :
              heading.tokens ++ (consequent.tokens ++ elseWord :: middle) =
                (heading.tokens ++ (consequent.tokens ++ [elseWord])) ++ middle := by
            simp
          rw [tokens, htokens]
          refine (ihAlternative hstrict' hnearest' hgroups).imp .alternative fun henclosable =>
            henclosable.behind _ ?_
          rintro _ ⟨other, hother, rfl, rfl⟩
          exact ⟨.choice heading consequent elseWord other,
            ⟨.choice hheading hconsequent helse hother.fits, ⟨hcondition, hstrict, hother.strict⟩,
              ⟨hclosed, hnearest, hother.nearest⟩, hother.endsOpen_eq⟩, rfl,
            by rw [tokens, htokens]⟩
  | @whileLoop heading body hheading hbody ih =>
      obtain ⟨hcondition, hstrict⟩ := hstrict
      rcases Stmt.groups_loop hgroups with ⟨condition', hgroups', rfl⟩ | ⟨body', hgroups', rfl⟩
      · refine .inr ((hheading.enclosable hcondition hgroups').ahead _ ?_)
        rintro _ ⟨other, hother, hcondition', rfl, rfl⟩
        exact ⟨.whileLoop other body,
          ⟨.whileLoop hother hbody, ⟨hcondition', hstrict⟩, hnearest, rfl⟩, rfl, rfl⟩
      · refine (ih hstrict hnearest hgroups').imp .loop fun henclosable => henclosable.behind _ ?_
        rintro _ ⟨other, hother, rfl, rfl⟩
        exact ⟨.whileLoop heading other, ⟨.whileLoop hheading hother.fits,
          ⟨hcondition, hother.strict⟩, hother.nearest, hother.endsOpen_eq⟩, rfl, rfl⟩
  | @forLoop counting body hcounting hbody ih =>
      obtain ⟨hstrictCounting, hstrict⟩ := hstrict
      rcases hcounting.enclosable hstrictCounting hgroups with
        ⟨hnone, rfl⟩ | henclosable | ⟨body', hgroups', rfl⟩
      · exact .inl (.here hnone)
      · refine .inr (henclosable.ahead _ ?_)
        rintro _ ⟨other, hother, hstrict', rfl, rfl⟩
        exact ⟨.forLoop other body,
          ⟨.forLoop hother hbody, ⟨hstrict', hstrict⟩, hnearest, rfl⟩, rfl, rfl⟩
      · refine (ih hstrict hnearest hgroups').imp .body fun henclosable => henclosable.behind _ ?_
        rintro _ ⟨other, hother, rfl, rfl⟩
        exact ⟨.forLoop counting other, ⟨.forLoop hcounting hother.fits,
          ⟨hstrictCounting, hother.strict⟩, hother.nearest, hother.endsOpen_eq⟩, rfl, rfl⟩
  | declare hdeclaration =>
      refine .inr ((hdeclaration.enclosable hstrict hgroups).imp ?_)
      rintro _ ⟨other, hother, hstrict', rfl, rfl⟩
      exact ⟨.declare other, ⟨.declare hother, hstrict', trivial, rfl⟩, rfl, rfl⟩
  | statement _ ih =>
      refine (ih hstrict hnearest hgroups).imp_right fun henclosable => henclosable.imp ?_
      rintro _ ⟨other, hother, htree, htokens⟩
      exact ⟨other, { hother with fits := .statement hother.fits }, htree, htokens⟩

end Clause

/-- Every expression within a listing can stand in parentheses, but for the conditions that
counting loops do without. -/
theorem Listing.WellFormed.enclosable {listing : Listing} (h : listing.WellFormed)
    {program' : Program} (hgroups : Program.Groups inner listing.program program') :
    listing.Supplies program' ∨ inner.Enclosable listing.tokens (Writes program') :=
  h.enclosable_row (fun clause hclause _ => (h.fits clause hclause).enclosable
    (Clause.strictRow_iff.mp h.strict clause hclause)
    (Clause.nearestRow_iff.mp h.nearest clause hclause)) hgroups

namespace Parsed

/-- What is accepted is accepted with any of its expressions in parentheses, with this expression
as a group in the tree, and that program is executed in the same way. Conditions that counting
loops do without have no tokens that could stand in parentheses. -/
theorem ofTokens_grouped {tokens : List Token} {diagnostics after : Diagnostics}
    {program : Program} (h : ofTokens tokens diagnostics = .ok ⟨some program, after⟩) :
    ∃ listing : Listing, ∃ ending rest, listing.WellFormed ∧ ending.isEnd = true ∧
      tokens = listing.tokens ++ ending :: rest ∧ listing.program = program ∧
      ∀ inner program', Program.Groups inner program program' →
        listing.Supplies program' ∨
          ∃ front part back, tokens = front ++ (part ++ back) ∧
            inner.WrittenAs .assignment part ∧
            (∀ opening closing : Token, opening.kind = .leftParen → closing.kind = .rightParen →
              ofTokens (front ++ opening :: (part ++ closing :: back)) diagnostics =
                .ok ⟨some program', diagnostics⟩) ∧
            ∀ (rounds : Nat) (interpreter : Interpreter),
              interpreter.execute rounds program' = interpreter.execute rounds program := by
  obtain ⟨listing, ending, rest, hlisting, hend, rfl, rfl, rfl⟩ := exists_listing h
  refine ⟨listing, ending, rest, hlisting, hend, rfl, rfl, fun inner program' hgroups => ?_⟩
  refine (hlisting.enclosable hgroups).imp_right fun henclosable => ?_
  have hwhole : inner.Enclosable (listing.tokens ++ ending :: rest) fun middle =>
      ofTokens middle after = .ok ⟨some program', after⟩ := by
    refine henclosable.ahead _ ?_
    rintro _ ⟨other, hother, rfl, rfl⟩
    exact ofTokens_listing hother hend rest after
  obtain ⟨front, part, back, htokens, hpart, haccepts⟩ := hwhole
  exact ⟨front, part, back, htokens, hpart, haccepts,
    fun rounds interpreter => hgroups.interpreter_execute_eq rounds interpreter⟩

theorem ofTokens_grouped_nestedChoice :
    ∃ listing : Listing, ∃ ending rest, listing.WellFormed ∧ ending.isEnd = true ∧
      Listing.nestedChoice.tokens ++ [Listing.word .endOfText ""] =
        listing.tokens ++ ending :: rest ∧
      listing.program = Listing.nestedChoice.program ∧
      ∀ inner program', Program.Groups inner Listing.nestedChoice.program program' →
        listing.Supplies program' ∨
          ∃ front part back, Listing.nestedChoice.tokens ++ [Listing.word .endOfText ""] =
              front ++ (part ++ back) ∧
            inner.WrittenAs .assignment part ∧
            (∀ opening closing : Token, opening.kind = .leftParen → closing.kind = .rightParen →
              ofTokens (front ++ opening :: (part ++ closing :: back)) {} =
                .ok ⟨some program', {}⟩) ∧
            ∀ (rounds : Nat) (interpreter : Interpreter), interpreter.execute rounds program' =
              interpreter.execute rounds Listing.nestedChoice.program := by
  have h : ofTokens (Listing.nestedChoice.tokens ++ [Listing.word .endOfText ""]) {} =
      .ok ⟨some Listing.nestedChoice.program, {}⟩ := rfl
  exact ofTokens_grouped h

end Parsed

end Treewalk
