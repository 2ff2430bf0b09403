import Treewalk.Proofs.Parsing.Steps

/-!
The parser of expressions reads every phrase, whatever follows it, as long as the token behind the
phrase does not go on with it. At the levels whose phrases grow to the right this needs more than
the statement itself: behind a phrase, the parser stands where it would stand if it had just read
that phrase as a left operand.
-/

namespace Treewalk

namespace Level

/-- A token of the kind does not go on with a phrase of the level. -/
def Stops (level : Level) (kind : TokenKind) : Prop :=
  ∀ other : Level, kind ∈ other.operators → other.rank < level.rank

theorem rank_le_tighter (level : Level) : level.rank ≤ level.tighter.rank := by
  cases level <;> decide

theorem Stops.tighter {level : Level} {kind : TokenKind} (h : level.Stops kind) :
    level.tighter.Stops kind :=
  fun other hother => Nat.lt_of_lt_of_le (h other hother) level.rank_le_tighter

theorem Stops.not_mem {level : Level} {kind : TokenKind} (h : level.Stops kind) :
    kind ∉ level.operators :=
  fun hmem => Nat.lt_irrefl _ (h level hmem)

theorem eq_of_mem_operators (level other : Level) :
    ∀ kind ∈ level.operators, kind ∈ other.operators → level = other := by
  cases level <;> cases other <;> decide

theorem stops_tighter_of_mem {level : Level} {kind : TokenKind} (h : kind ∈ level.operators) :
    level.tighter.Stops kind := by
  intro other hother
  obtain rfl := eq_of_mem_operators level other kind h hother
  cases level <;> first | decide | simp [operators] at h

theorem stops_of_closing {kind : TokenKind}
    (h : kind = .semicolon ∨ kind = .rightParen ∨ kind = .comma) (level : Level) :
    level.Stops kind := by
  intro other hother
  rcases h with rfl | rfl | rfl <;> cases other <;> simp [operators] at hother

def isChained (level : Level) : Bool :=
  level.isBinary || level == .call

end Level

namespace Parser

def ofLevel (nested : Parser Expr) (bound : Nat) : Level → Parser Expr
  | .assignment => assignment nested bound
  | .disjunction => disjunction nested bound
  | .conjunction => conjunction nested bound
  | .equality => equality nested bound
  | .comparison => comparison nested bound
  | .sum => sum nested bound
  | .product => product nested bound
  | .unary => unary nested bound
  | .call => call nested bound
  | .primary => primary nested

/-- What the parser of a level does behind a phrase that may grow. -/
def follow (nested : Parser Expr) (bound : Nat) : Level → Nat → Expr → Parser Expr
  | .call => calls nested
  | level => chain level.operators level.node (ofLevel nested bound level.tighter)

variable {nested : Parser Expr} {bound more : Nat} {level : Level}

theorem ofLevel_eq_follow (h : level.isChained) :
    ofLevel nested bound level =
      (ofLevel nested bound level.tighter >>= follow nested bound level bound) := by
  cases level <;> first | rfl | contradiction

theorem follow_eq_chain (h : level.isBinary) :
    follow nested bound level =
      chain level.operators level.node (ofLevel nested bound level.tighter) := by
  cases level <;> first | rfl | contradiction

theorem follow_of_stops (h : level.isChained) (value : Expr) (cursor : Cursor) {next : Token}
    (rest : List Token) (hnext : level.Stops next.kind) :
    follow nested bound level (more + 1) value (cursor.before (next :: rest)) =
      .ok value (cursor.before (next :: rest)) := by
  have haccept := accept_of_not_mem cursor rest hnext.not_mem
  by_cases hcall : level = .call
  · subst hcall
    exact bind_eq_of_ok haccept
  · have hbinary : level.isBinary := by simpa [Level.isChained, hcall] using h
    rw [follow_eq_chain hbinary]
    exact bind_eq_of_ok haccept

end Parser

namespace Phrase

open Treewalk.Parser

/-- The parser of the level reads the phrase. -/
def ReadAt (level : Level) (phrase : Phrase) : Prop :=
  ∀ (inner bound : Nat) (cursor : Cursor) (next : Token) (rest : List Token),
    phrase.tokens.length ≤ inner + 1 → phrase.tokens.length ≤ bound → level.Stops next.kind →
    ofLevel (expression inner) bound level (cursor.before (phrase.tokens ++ next :: rest)) =
      .ok phrase.tree ((cursor.noting phrase.remarks).before (next :: rest))

/-- The parser of the level reads the phrase as a left operand, after so many links. -/
def FollowedAt (level : Level) (phrase : Phrase) : Prop :=
  ∀ inner bound, phrase.tokens.length ≤ inner + 1 → phrase.tokens.length ≤ bound →
    ∃ links, links < phrase.tokens.length ∧
      ∀ (more : Nat) (cursor : Cursor) (next : Token) (rest : List Token),
        phrase.tokens.length ≤ links + more → level.tighter.Stops next.kind →
        (ofLevel (expression inner) bound level.tighter >>=
            follow (expression inner) bound level (links + more))
          (cursor.before (phrase.tokens ++ next :: rest)) =
        follow (expression inner) bound level more phrase.tree
          ((cursor.noting phrase.remarks).before (next :: rest))

variable {level : Level} {phrase : Phrase}

theorem FollowedAt.readAt (hlevel : level.isChained) (h : phrase.FollowedAt level) :
    phrase.ReadAt level := by
  intro inner bound cursor next rest hinner hbound hnext
  obtain ⟨links, hlinks, hfollow⟩ := h inner bound hinner hbound
  have hsplit : links + ((bound - links - 1) + 1) = bound := by omega
  rw [ofLevel_eq_follow hlevel]
  have hread := hfollow ((bound - links - 1) + 1) cursor next rest (by omega) hnext.tighter
  rw [hsplit] at hread
  rw [hread, follow_of_stops hlevel _ _ _ hnext]

theorem ReadAt.followedAt (h : phrase.ReadAt level.tighter) : phrase.FollowedAt level := by
  intro inner bound hinner hbound
  refine ⟨0, phrase.tokens_length_pos, ?_⟩
  intro more cursor next rest _ hnext
  rw [bind_eq_of_ok (h inner bound cursor next rest hinner hbound hnext), Nat.zero_add]

theorem ReadAt.expression (h : phrase.ReadAt .assignment) {bound : Nat}
    (hbound : phrase.tokens.length ≤ bound) (cursor : Cursor) {next : Token}
    (rest : List Token) (hnext : Level.assignment.Stops next.kind) :
    Parser.expression bound (cursor.before (phrase.tokens ++ next :: rest)) =
      .ok phrase.tree ((cursor.noting phrase.remarks).before (next :: rest)) := by
  have hpos := phrase.tokens_length_pos
  cases bound with
  | zero => omega
  | succ bound => exact h bound (bound + 1) cursor next rest hbound hbound hnext

theorem limitArguments_before (count : Nat) (argument : Phrase) (cursor : Cursor)
    (rest : List Token) :
    limitArguments count (cursor.before (argument.tokens ++ rest)) =
      .ok () ((cursor.noting (argument.countRemarks count)).before (argument.tokens ++ rest)) := by
  obtain ⟨others, hfirst⟩ := argument.tokens_eq_first
  unfold limitArguments countRemarks
  split
  · rw [hfirst, List.cons_append, bind_eq_of_ok (peek_before cursor _ _)]
    rfl
  · rfl

theorem arguments_before {inner : Nat} (row : List Phrase) (commas : List Token)
    (hrow : row ≠ []) (hread : ∀ argument ∈ row, argument.ReadAt .assignment)
    (hcommas : ∀ comma ∈ commas, comma.kind = .comma)
    (hlength : commas.length = row.length - 1)
    (hinner : (separated (tokensRow row) commas).length ≤ inner) (cursor : Cursor)
    {closing : Token} (rest : List Token) (hclosing : closing.kind = .rightParen) (bound : Nat)
    (hbound : row.length ≤ bound) (done : List Expr) :
    arguments (Parser.expression inner) bound done
        (cursor.before (separated (tokensRow row) commas ++ closing :: rest)) =
      .ok (done.reverse ++ treeRow row)
        ((cursor.noting (remarksRow done.length row)).before (closing :: rest)) := by
  induction row generalizing commas cursor bound done with
  | nil => contradiction
  | cons first others ih =>
      obtain ⟨bound, rfl⟩ : ∃ smaller, bound = smaller + 1 := ⟨bound - 1, by grind⟩
      have hfirst := hread first (by simp)
      rw [arguments]
      cases others with
      | nil =>
          have hstops := Level.stops_of_closing (.inr (.inl hclosing)) .assignment
          simp only [tokensRow, separated] at hinner ⊢
          rw [bind_eq_of_ok (limitArguments_before _ _ _ _),
            bind_eq_of_ok (hfirst.expression hinner _ rest hstops),
            bind_eq_of_ok (accept_of_not_mem _ rest (by simp [hclosing]))]
          simp [treeRow, remarksRow, Cursor.noting_append]
      | cons second others =>
          cases commas with
          | nil => simp at hlength
          | cons comma commas =>
              have hcomma : comma.kind = .comma := hcommas comma (by simp)
              have hstops := Level.stops_of_closing (.inr (.inr hcomma)) .assignment
              have htokens : separated (tokensRow (first :: second :: others)) (comma :: commas) =
                  first.tokens ++ comma :: separated (tokensRow (second :: others)) commas := by
                simp [tokensRow, separated]
              rw [htokens] at hinner ⊢
              simp only [List.length_append, List.length_cons] at hinner
              rw [List.append_assoc, List.cons_append,
                bind_eq_of_ok (limitArguments_before _ _ _ _),
                bind_eq_of_ok (hfirst.expression (by omega) _ _ hstops),
                bind_eq_of_ok (accept_of_mem _ _ (by simp [hcomma]) (by simp))]
              refine (ih commas (by simp) ?_ ?_ ?_ ?_ _ bound ?_ (first.tree :: done)).trans ?_
              · exact fun argument hmem => hread argument (by simp_all)
              · exact fun other hmem => hcommas other (by simp [hmem])
              · simpa using hlength
              · omega
              · simpa using hbound
              · simp [treeRow, remarksRow, Cursor.noting_append]

theorem argumentList_before {inner : Nat} (row : List Phrase) (commas : List Token)
    (hread : ∀ argument ∈ row, argument.ReadAt .assignment)
    (hfirst : ∀ argument ∈ row, argument.first.kind ∈ beginnings)
    (hcommas : ∀ comma ∈ commas, comma.kind = .comma)
    (hlength : commas.length = row.length - 1)
    (hinner : (separated (tokensRow row) commas).length ≤ inner) (cursor : Cursor)
    {closing : Token} (rest : List Token) (hclosing : closing.kind = .rightParen) (bound : Nat)
    (hbound : row.length ≤ bound) :
    argumentList (Parser.expression inner) bound
        (cursor.before (separated (tokensRow row) commas ++ closing :: rest)) =
      .ok (treeRow row) ((cursor.noting (remarksRow 0 row)).before (closing :: rest)) := by
  rw [argumentList]
  cases row with
  | nil =>
      rw [tokensRow, separated, List.nil_append, bind_eq_of_ok (check_before cursor _ _ _),
        if_pos (by simp [hclosing])]
      simp [treeRow, remarksRow]
  | cons first others =>
      obtain ⟨after, hafter⟩ : ∃ after,
          separated (tokensRow (first :: others)) commas = first.first :: after := by
        obtain ⟨after, htokens⟩ := first.tokens_eq_first
        rw [tokensRow, htokens]
        cases others <;> cases commas <;> simp [tokensRow, separated]
      have harguments := arguments_before (first :: others) commas (by simp) hread hcommas
        hlength hinner cursor rest hclosing bound hbound []
      rw [hafter, List.cons_append] at harguments ⊢
      have hkind : first.first.kind ≠ .rightParen := by
        intro hkind
        simpa [hkind, beginnings, primaryBeginnings] using hfirst first (by simp)
      rw [bind_eq_of_ok (check_before cursor _ _ _), if_neg (by simpa using hkind), harguments]
      rfl

theorem length_le_separated (row : List Phrase) (commas : List Token) :
    row.length ≤ (separated (tokensRow row) commas).length := by
  induction row generalizing commas with
  | nil => simp
  | cons first others ih =>
      have hpos := first.tokens_length_pos
      cases others with
      | nil =>
          simp only [tokensRow, separated, List.length_singleton]
          omega
      | cons second others =>
          cases commas with
          | nil =>
              have := ih []
              simp only [tokensRow, separated, List.length_append, List.length_cons] at this ⊢
              omega
          | cons comma commas =>
              have := ih commas
              simp only [tokensRow, separated, List.length_append, List.length_cons] at this ⊢
              omega

theorem followedAt_call {callee : Phrase} {opening closing : Token} {arguments : List Phrase}
    {commas : List Token} (hcallee : callee.FollowedAt .call)
    (hopening : opening.kind = .leftParen)
    (hread : ∀ argument ∈ arguments, argument.ReadAt .assignment)
    (hfirst : ∀ argument ∈ arguments, argument.first.kind ∈ beginnings)
    (hcommas : ∀ comma ∈ commas, comma.kind = .comma)
    (hlength : commas.length = arguments.length - 1) (hclosing : closing.kind = .rightParen) :
    (call callee opening arguments commas closing).FollowedAt .call := by
  intro inner bound hinner hbound
  have hcount := length_le_separated arguments commas
  have hpos := callee.tokens_length_pos
  simp only [tokens, List.length_append, List.length_cons, List.length_nil] at hinner hbound
  obtain ⟨links, hlinks, hfollow⟩ := hcallee inner bound (by omega) (by omega)
  simp only [tokens, List.length_append, List.length_cons, List.length_nil]
  refine ⟨links + 1, by omega, ?_⟩
  intro more cursor next rest hmore hnext
  have hstops : Level.call.tighter.Stops opening.kind :=
    Level.stops_tighter_of_mem (by simp [Level.operators, hopening])
  rw [List.append_assoc, List.cons_append, List.append_assoc, Nat.add_assoc,
    hfollow (1 + more) cursor opening _ (by omega) hstops, Nat.add_comm 1 more]
  have harguments := argumentList_before arguments commas hread hfirst hcommas hlength
    (by omega : _ ≤ inner) (cursor.noting callee.remarks) (next :: rest) hclosing (more + 1)
    (by omega)
  have hexpect := expect_before ((cursor.noting callee.remarks).noting (remarksRow 0 arguments))
    "after arguments" (next :: rest) hclosing (by simp)
  have hfinish : finishCall (Parser.expression inner) (more + 1) callee.tree
      ((cursor.noting callee.remarks).before
        (separated (tokensRow arguments) commas ++ closing :: next :: rest)) =
      .ok (call callee opening arguments commas closing).tree
        ((cursor.noting (call callee opening arguments commas closing).remarks).before
          (next :: rest)) := by
    rw [finishCall, bind_eq_of_ok harguments, bind_eq_of_ok hexpect]
    simp [tree, remarks, Cursor.noting_append]
  exact (bind_eq_of_ok (accept_of_mem _ _ (by simp [hopening]) (by simp))).trans
    (bind_eq_of_ok hfinish)

theorem followedAt_binary (hlevel : level.isBinary) {left right : Phrase} {operator : Token}
    (hleft : left.FollowedAt level) (hoperator : operator.kind ∈ level.operators)
    (hright : right.ReadAt level.tighter) : (binary left operator right).FollowedAt level := by
  intro inner bound hinner hbound
  have hpos := left.tokens_length_pos
  simp only [tokens, List.length_append, List.length_cons] at hinner hbound
  obtain ⟨links, hlinks, hfollow⟩ := hleft inner bound (by omega) (by omega)
  simp only [tokens, List.length_append, List.length_cons]
  refine ⟨links + 1, by omega, ?_⟩
  intro more cursor next rest hmore hnext
  rw [List.append_assoc, List.cons_append, Nat.add_assoc,
    hfollow (1 + more) cursor operator _ (by omega) (Level.stops_tighter_of_mem hoperator),
    Nat.add_comm 1 more, follow_eq_chain hlevel, tree_binary hlevel hoperator]
  have haccept := accept_of_mem (cursor.noting left.remarks) (right.tokens ++ next :: rest)
    hoperator level.endOfText_not_mem_operators
  have hread := hright inner bound (cursor.noting left.remarks) next rest (by omega) (by omega)
    hnext
  rw [remarks, Cursor.noting_append]
  exact (bind_eq_of_ok haccept).trans (bind_eq_of_ok hread)

theorem readAt_constant {token : Token} {value : Constant} (h : value.WrittenAs token) :
    (constant token value).ReadAt .primary := by
  intro inner bound cursor next rest _ _ _
  have hvalue := Constant.ofToken?_eq_some_iff.mpr h
  have hfirst := (Fits.constant h).first_kind_of_call (.inr rfl)
  rw [first] at hfirst
  have hkind : token.kind ≠ .endOfText := by
    intro hkind
    simp [hkind, primaryBeginnings] at hfirst
  have hadvance := advance_before cursor (next :: rest) hkind
  rw [tokens, List.singleton_append, ofLevel, primary, bind_eq_of_ok (peek_before cursor _ _),
    hvalue]
  cases h with
  | nil hkind | isFalse hkind | isTrue hkind =>
      simp only [hkind]
      exact bind_eq_of_ok hadvance
  | number hkind _ | string hkind _ =>
      rcases hkind with hkind | hkind <;> simp only [hkind] <;> exact bind_eq_of_ok hadvance

theorem readAt_var {name : Token} (h : name.kind = .identifier) :
    (var name).ReadAt .primary := by
  intro inner bound cursor next rest _ _ _
  have hadvance := advance_before cursor (next :: rest) (by simp [h] : name.kind ≠ .endOfText)
  rw [tokens, List.singleton_append, ofLevel, primary, bind_eq_of_ok (peek_before cursor _ _)]
  simp only [h]
  exact bind_eq_of_ok hadvance

theorem readAt_group {opening closing : Token} {inside : Phrase}
    (hopening : opening.kind = .leftParen) (hinside : inside.ReadAt .assignment)
    (hclosing : closing.kind = .rightParen) :
    (group opening inside closing).ReadAt .primary := by
  intro inner bound cursor next rest hinner _ _
  simp only [tokens, List.length_append, List.length_cons, List.length_nil] at hinner
  have hadvance := advance_before cursor (inside.tokens ++ closing :: next :: rest)
    (by simp [hopening] : opening.kind ≠ .endOfText)
  have hstops := Level.stops_of_closing (.inr (.inl hclosing)) .assignment
  have hread := hinside.expression (by omega : _ ≤ inner) cursor (next :: rest) hstops
  have hexpect := expect_before (cursor.noting inside.remarks) "after expression" (next :: rest)
    hclosing (by simp)
  rw [tokens, List.cons_append, List.append_assoc, List.singleton_append, ofLevel, primary,
    bind_eq_of_ok (peek_before cursor _ _)]
  simp only [hopening]
  rw [bind_eq_of_ok hadvance, bind_eq_of_ok hread, bind_eq_of_ok hexpect]
  simp [tree, remarks]

theorem readAt_signed {operator : Token} {operand : Phrase}
    (hoperator : operator.kind = .bang ∨ operator.kind = .minus)
    (hoperand : operand.ReadAt .unary) : (unary operator operand).ReadAt .unary := by
  intro inner bound cursor next rest hinner hbound hnext
  simp only [tokens, List.length_cons] at hinner hbound
  obtain ⟨bound, rfl⟩ : ∃ smaller, bound = smaller + 1 := ⟨bound - 1, by omega⟩
  have haccept := accept_of_mem cursor (operand.tokens ++ next :: rest)
    (by simpa using hoperator : operator.kind ∈ [.bang, .minus]) (by simp)
  have hread := hoperand inner bound cursor next rest (by omega) (by omega) hnext
  rw [tokens, List.cons_append, ofLevel, Parser.unary, bind_eq_of_ok haccept]
  exact bind_eq_of_ok hread

theorem readAt_unsigned (h : phrase.ReadAt .call)
    (hfirst : phrase.first.kind ∈ primaryBeginnings) : phrase.ReadAt .unary := by
  intro inner bound cursor next rest hinner hbound hnext
  have hpos := phrase.tokens_length_pos
  obtain ⟨bound, rfl⟩ : ∃ smaller, bound = smaller + 1 := ⟨bound - 1, by omega⟩
  have hread := h inner (bound + 1) cursor next rest hinner hbound hnext.tighter
  obtain ⟨others, htokens⟩ := phrase.tokens_eq_first
  have hkind : phrase.first.kind ∉ [TokenKind.bang, .minus] := by
    intro hmem
    simp only [List.mem_cons, List.not_mem_nil, or_false] at hmem
    rcases hmem with hmem | hmem <;> simp [hmem, primaryBeginnings] at hfirst
  rw [htokens, List.cons_append] at hread ⊢
  rw [ofLevel, Parser.unary, bind_eq_of_ok (accept_of_not_mem cursor _ hkind)]
  exact hread

theorem readAt_assign {target value : Phrase} {equals : Token}
    (htarget : target.ReadAt .disjunction) (hequals : equals.kind = .equal)
    (hvalue : value.ReadAt .assignment) : (assign target equals value).ReadAt .assignment := by
  intro inner bound cursor next rest hinner hbound hnext
  have hpos := target.tokens_length_pos
  simp only [tokens, List.length_append, List.length_cons] at hinner hbound
  have hstops : Level.assignment.tighter.Stops equals.kind :=
    Level.stops_tighter_of_mem (by simp [Level.operators, hequals])
  have hleft := htarget inner bound cursor equals (value.tokens ++ next :: rest) (by omega)
    (by omega) hstops
  rw [ofLevel] at hleft
  have haccept := accept_of_mem (cursor.noting target.remarks) (value.tokens ++ next :: rest)
    (by simp [hequals] : equals.kind ∈ [.equal]) (by simp)
  have hread := hvalue.expression (by omega : _ ≤ inner) (cursor.noting target.remarks) rest hnext
  rw [tokens, List.append_assoc, List.cons_append, ofLevel, assignment, bind_eq_of_ok hleft,
    bind_eq_of_ok haccept]
  simp only
  rw [bind_eq_of_ok hread, remarks, Cursor.noting_append, Cursor.noting_append]
  by_cases hvar : ∃ name, target = var name
  · obtain ⟨name, rfl⟩ := hvar
    rw [tree_assign_var]
    rfl
  · rw [not_exists] at hvar
    rw [tree_assign_of_ne equals value hvar]
    have hremarks : target.targetRemarks equals = [⟨equals, .invalidAssignmentTarget⟩] := by
      cases target <;> simp_all [targetRemarks]
    rw [hremarks]
    generalize htree : target.tree = tree
    split
    · next name => exact absurd (tree_eq_var htree) (hvar name)
    · rfl

theorem readAt_unassigned (h : phrase.ReadAt .disjunction) : phrase.ReadAt .assignment := by
  intro inner bound cursor next rest hinner hbound hnext
  have hread := h inner bound cursor next rest hinner hbound hnext.tighter
  rw [ofLevel, assignment]
  exact (bind_eq_of_ok hread).trans (bind_eq_of_ok (accept_of_not_mem _ rest hnext.not_mem))

theorem Fits.read (h : phrase.Fits level) :
    phrase.ReadAt level ∧ (level.isChained → phrase.FollowedAt level) := by
  induction h with
  | constant hwritten => exact ⟨readAt_constant hwritten, by simp [Level.isChained, Level.isBinary]⟩
  | var hname => exact ⟨readAt_var hname, by simp [Level.isChained, Level.isBinary]⟩
  | group hopening _ hclosing ih =>
      exact ⟨readAt_group hopening ih.1 hclosing, by simp [Level.isChained, Level.isBinary]⟩
  | call _ hopening harguments hcommas hlength hclosing ihCallee ihArguments =>
      have hfollowed := followedAt_call (ihCallee.2 rfl) hopening
        (fun argument hmem => (ihArguments argument hmem).1)
        (fun argument hmem => (harguments argument hmem).first_kind) hcommas hlength hclosing
      exact ⟨hfollowed.readAt rfl, fun _ => hfollowed⟩
  | unary hoperator _ ih =>
      exact ⟨readAt_signed hoperator ih.1, by simp [Level.isChained, Level.isBinary]⟩
  | @binary level _ _ _ hlevel _ hoperator _ ihLeft ihRight =>
      have hchained : level.isChained := by simp [Level.isChained, hlevel]
      have hfollowed := followedAt_binary hlevel (ihLeft.2 hchained) hoperator ihRight.1
      exact ⟨hfollowed.readAt hchained, fun _ => hfollowed⟩
  | assign _ hequals _ ihTarget ihValue =>
      exact ⟨readAt_assign ihTarget.1 hequals ihValue.1,
        by simp [Level.isChained, Level.isBinary]⟩
  | @tighter level phrase hfits ih =>
      by_cases hchained : level.isChained
      · have hfollowed := ih.1.followedAt
        exact ⟨hfollowed.readAt hchained, fun _ => hfollowed⟩
      · refine ⟨?_, fun h => absurd h hchained⟩
        cases level with
        | assignment => exact readAt_unassigned ih.1
        | unary => exact readAt_unsigned ih.1 (hfits.first_kind_of_call (.inl rfl))
        | primary => exact ih.1
        | _ => exact absurd rfl hchained

end Phrase

end Treewalk
