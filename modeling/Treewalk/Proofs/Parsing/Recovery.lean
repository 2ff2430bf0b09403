import Mathlib.Logic.Relation
import Mathlib.Order.Bounds.Defs
import Treewalk.Proofs.Parsing.Termination

/-!
Recovery. Where a declaration is given up, the error is recorded at the token under the cursor, and
from the place where reading goes on, the rest is read as if nothing had come before it.
-/

namespace Treewalk

variable {tokens before rest : List Token} {ending : Token} {start cursor later : Cursor}
  {bound rounds : Nat}

namespace Parser

/-- A round of the parser of programs before the end of the text. -/
def Round (bound : Nat) (cursor later : Cursor) : Prop :=
  ∃ token rest read, cursor.rest = token :: rest ∧ token.isEnd = false ∧
    round bound cursor = .ok (read, later)

/-- Rounds of the parser of programs, one after the other. -/
abbrev Rounds (bound : Nat) : Cursor → Cursor → Prop :=
  Relation.ReflTransGen (Round bound)

/-- What a round leaves is shorter, and the declarations of a program are the one of the round, if
it reads one, and those that are left. -/
theorem Round.declarations_eq (h : Round bound cursor later)
    (hrest : cursor.rest = before ++ ending :: rest)
    (hplain : ∀ token ∈ before, token.isEnd = false) (hend : ending.isEnd = true)
    (hbound : before.length < bound) (rounds : Nat) (done : List Stmt) :
    ∃ left done', left <:+ before ∧ left.length < before.length ∧
      later.rest = left ++ ending :: rest ∧
      declarations bound (rounds + 1) done cursor = declarations bound rounds done' later := by
  obtain ⟨token, others, read, htoken, hgoes, hround⟩ := h
  have hne : before ≠ [] := by
    rintro rfl
    rw [hrest, List.nil_append, List.cons.injEq] at htoken
    rw [htoken.1, hgoes] at hend
    contradiction
  obtain ⟨left, read', remarks, hleft, hlength, hbefore⟩ := round_before hplain hne hend
  have hsame := hbefore bound hbound cursor rest
  rw [← hrest, Cursor.before_self, hround] at hsame
  cases hsame
  refine ⟨left, read.toList ++ done, hleft, hlength, rfl, ?_⟩
  rw [declarations_round htoken hgoes, hround]

/-- After some rounds, the declarations still to be read are read as before, within the bounds. -/
theorem Rounds.declarations_eq (h : Rounds bound start cursor)
    (hrest : start.rest = before ++ ending :: rest)
    (hplain : ∀ token ∈ before, token.isEnd = false) (hend : ending.isEnd = true)
    (hbound : before.length < bound) (hrounds : before.length < rounds) (done : List Stmt) :
    ∃ left fewer done', left <:+ before ∧ cursor.rest = left ++ ending :: rest ∧
      left.length < fewer ∧
      declarations bound rounds done start = declarations bound fewer done' cursor := by
  induction h with
  | refl => exact ⟨before, rounds, done, List.suffix_rfl, hrest, hrounds, rfl⟩
  | @tail middle later _ hround ih =>
      obtain ⟨left, fewer, done', hleft, hmiddle, hfewer, heq⟩ := ih
      obtain ⟨fewer, rfl⟩ : ∃ less, fewer = less + 1 := ⟨fewer - 1, by omega⟩
      obtain ⟨shorter, done'', hshorter, hlength, hlater, hnext⟩ := hround.declarations_eq hmiddle
        (fun token hmem => hplain token (hleft.subset hmem)) hend
        (Nat.lt_of_le_of_lt hleft.length_le hbound) fewer done'
      exact ⟨shorter, fewer, done'', hshorter.trans hleft, hlater, by omega, heq.trans hnext⟩

theorem Rounds.eq_of_isEnd (h : Rounds bound start cursor) {token : Token}
    (hrest : start.rest = token :: rest) (hend : token.isEnd = true) : cursor = start := by
  rcases h.cases_head with rfl | ⟨middle, ⟨first, others, read, hfirst, hgoes, -⟩, -⟩
  · rfl
  · rw [hrest, List.cons.injEq] at hfirst
    rw [hfirst.1, hgoes] at hend
    contradiction

/-- Where a declaration is given up, the cursor stands before the token of the error. -/
theorem rest_of_abort {token : Token} {error : GrammarError} {raised : Cursor}
    (h : declaration (statement bound) bound cursor = .error (.abort token error) raised)
    (hend : ∃ token ∈ cursor.rest, token.isEnd = true) (hbound : cursor.rest.length ≤ bound) :
    ∃ after, raised.rest = token :: after ∧ token :: after <:+ cursor.rest ∧
      ∃ token ∈ raised.rest, token.isEnd = true := by
  cases declaration_answers hend hbound with
  | @reads taken after next remarks value htakes _ hread =>
      have hsame := hread ⟨bound, le_rfl⟩ cursor after
      rw [← htakes.tokens_eq, Cursor.before_self, h] at hsame
      contradiction
  | @aborts taken after next remarks error' htakes _ _ hread =>
      have hsame := hread ⟨bound, le_rfl⟩ cursor after
      rw [← htakes.tokens_eq, Cursor.before_self, h] at hsame
      cases hsame
      exact ⟨after, rfl, htakes.tokens_eq ▸ List.suffix_append _ _, htakes.exists_end hend⟩

end Parser

theorem Cursor.rest_eq_drop (h : cursor.rest <:+ tokens) :
    cursor.rest = tokens.drop (cursor.position tokens) :=
  List.suffix_iff_eq_drop.mp h

theorem Token.BeginsAt.unique {place : Nat} {begins begins' : Bool}
    (h : BeginsAt tokens place begins) (h' : BeginsAt tokens place begins') : begins = begins' := by
  obtain ⟨previous, next, hprevious, hnext, rfl⟩ := h
  obtain ⟨previous', next', hprevious', hnext', rfl⟩ := h'
  rw [hprevious, Option.some.injEq] at hprevious'
  rw [hnext, Option.some.injEq] at hnext'
  rw [hprevious', hnext']

/-- After an error reading goes on at the next place where it may. -/
theorem exists_resume_eq_drop {place : Nat} {token : Token} {after : List Token}
    (hdrop : tokens.drop place = token :: after) (hgoes : token.isEnd = false)
    (hend : ∃ token ∈ tokens.drop place, token.isEnd = true) :
    ∃ next, resume (token :: after) = tokens.drop next ∧
      IsLeast {later | place < later ∧ Token.BeginsAt tokens later true} next := by
  have hplace : place < tokens.length := by
    have hlength := congrArg List.length hdrop
    rw [List.length_drop, List.length_cons] at hlength
    omega
  have htoken : tokens[place] = token := by
    rw [List.drop_eq_getElem_cons hplace, List.cons.injEq] at hdrop
    exact hdrop.1
  obtain ⟨next, hlt, hresume, hbegins, hbetween⟩ :=
    resume_eq_drop hplace (htoken ▸ hgoes) hend
  refine ⟨next, hdrop ▸ hresume, ⟨hlt, hbegins⟩, ?_⟩
  rintro later ⟨hafter, hlater⟩
  by_contra hbefore
  have hpasses := hbetween later hafter (Nat.lt_of_not_le hbefore)
  exact Bool.noConfusion (hlater.unique hpasses)

/-- The cursor after a round in which a declaration is given up. -/
def Cursor.leaving (raised : Cursor) (token : Token) (error : GrammarError) : Cursor :=
  (raised.report token error).before (resume raised.rest)

namespace Parsed

/-- While some tokens are read, a declaration is given up. It begins where the cursor stands between
two rounds, and its error is raised where the cursor stands then. -/
structure GivesUp (tokens : List Token) (diagnostics : Diagnostics) (begun : Cursor)
    (token : Token) (error : GrammarError) (raised : Cursor) : Prop where
  rounds : Parser.Rounds (tokens.length + 1) ⟨tokens, diagnostics, false⟩ begun
  goes : ∃ first others, begun.rest = first :: others ∧ first.isEnd = false
  abort : Parser.declaration (Parser.statement (tokens.length + 1)) (tokens.length + 1) begun =
    .error (.abort token error) raised

/-- Reading goes on at the next place after an error where it may, and what is recorded from then on
is what is recorded where reading begins at that place. -/
structure GoesOn (tokens : List Token) (parsed : Parsed) (place : Nat) (resumed : Cursor)
    (next : Nat) : Prop where
  isLeast : IsLeast {later | place < later ∧ Token.BeginsAt tokens later true} next
  rest_eq : resumed.rest = tokens.drop next
  afresh : ∃ fresh, ofTokens (tokens.drop next) {} = .ok fresh ∧
    parsed.diagnostics.entries = resumed.diagnostics.entries ++ fresh.diagnostics.entries

/-- Between two rounds the diagnostics that are still to come are those of a parser that begins at
the cursor. -/
theorem exists_afresh {diagnostics : Diagnostics}
    (h : Parser.Rounds ((before ++ ending :: rest).length + 1)
      ⟨before ++ ending :: rest, diagnostics, false⟩ cursor)
    (hplain : ∀ token ∈ before, token.isEnd = false) (hend : ending.isEnd = true) :
    ∃ parsed fresh, ofTokens (before ++ ending :: rest) diagnostics = .ok parsed ∧
      ofTokens cursor.rest {} = .ok fresh ∧
      parsed.diagnostics.entries = cursor.diagnostics.entries ++ fresh.diagnostics.entries := by
  have hlength (tokens : List Token) : tokens.length < (tokens ++ ending :: rest).length + 1 := by
    rw [List.length_append]
    omega
  obtain ⟨left, fewer, done, hleft, hcursor, hfewer, hrun⟩ :=
    h.declarations_eq rfl hplain hend (hlength before) (hlength before) []
  obtain ⟨read, remarks, hreads⟩ :=
    Parser.declarations_ends (fun token hmem => hplain token (hleft.subset hmem)) hend
  have hgoes := hreads _ fewer (Nat.lt_of_le_of_lt hleft.length_le (hlength before)) hfewer done
    cursor rest
  have hfresh := hreads _ _ (hlength left) (hlength left) [] ⟨[], {}, false⟩ rest
  rw [← hcursor, Cursor.before_self, ← hrun] at hgoes
  rw [← hcursor] at hfresh
  refine ⟨_, _, ofTokens_of_declarations hgoes, ofTokens_of_declarations hfresh, ?_⟩
  exact (Cursor.entries_noting cursor remarks).trans
    (congrArg _ (Cursor.entries_noting ⟨[], {}, false⟩ remarks).symm)

namespace GivesUp

variable {diagnostics : Diagnostics} {begun raised : Cursor} {token : Token} {error : GrammarError}

/-- The tokens to the first end, as they are split by a round. -/
theorem exists_left (h : GivesUp (before ++ ending :: rest) diagnostics begun token error raised)
    (hplain : ∀ token ∈ before, token.isEnd = false) (hend : ending.isEnd = true) :
    ∃ left, left ≠ [] ∧ left <:+ before ∧ begun.rest = left ++ ending :: rest := by
  have hlength : before.length < (before ++ ending :: rest).length + 1 := by
    rw [List.length_append]
    omega
  obtain ⟨left, -, -, hleft, hbegun, -, -⟩ :=
    h.rounds.declarations_eq rfl hplain hend hlength hlength []
  refine ⟨left, ?_, hleft, hbegun⟩
  rintro rfl
  obtain ⟨first, others, hfirst, hgoes⟩ := h.goes
  rw [hbegun, List.nil_append, List.cons.injEq] at hfirst
  rw [hfirst.1, hgoes] at hend
  contradiction

theorem exists_rest (h : GivesUp (before ++ ending :: rest) diagnostics begun token error raised)
    (hplain : ∀ token ∈ before, token.isEnd = false) (hend : ending.isEnd = true) :
    ∃ after, raised.rest = token :: after ∧ token :: after <:+ begun.rest ∧
      begun.rest <:+ before ++ ending :: rest ∧ ∃ token ∈ raised.rest, token.isEnd = true := by
  obtain ⟨left, -, ⟨passed, rfl⟩, hbegun⟩ := h.exists_left hplain hend
  have hsuffix : begun.rest <:+ passed ++ left ++ ending :: rest :=
    ⟨passed, by rw [hbegun, List.append_assoc]⟩
  have hlast : ∃ token ∈ begun.rest, token.isEnd = true := ⟨ending, by simp [hbegun], hend⟩
  obtain ⟨after, hraised, hafter, hending⟩ :=
    Parser.rest_of_abort h.abort hlast (Nat.le_succ_of_le hsuffix.length_le)
  exact ⟨after, hraised, hafter, hsuffix, hending⟩

theorem round_eq (h : GivesUp tokens diagnostics begun token error raised) :
    Parser.round (tokens.length + 1) begun = .ok (none, raised.leaving token error) := by
  rw [Parser.round, h.abort]
  rfl

theorem rounds_leaving (h : GivesUp tokens diagnostics begun token error raised) :
    Parser.Rounds (tokens.length + 1) ⟨tokens, diagnostics, false⟩
      (raised.leaving token error) := by
  obtain ⟨first, others, hfirst, hgoes⟩ := h.goes
  exact h.rounds.tail ⟨first, others, none, hfirst, hgoes, h.round_eq⟩

/-- A declaration that is given up later is given up at a later place. -/
theorem position_lt (h : GivesUp (before ++ ending :: rest) diagnostics begun token error raised)
    (hplain : ∀ token ∈ before, token.isEnd = false) (hend : ending.isEnd = true)
    {begun' raised' : Cursor} {token' : Token} {error' : GrammarError}
    (h' : GivesUp (before ++ ending :: rest) diagnostics begun' token' error' raised')
    (hrounds : Parser.Rounds ((before ++ ending :: rest).length + 1)
      (raised.leaving token error) begun') :
    raised.position (before ++ ending :: rest) < raised'.position (before ++ ending :: rest) := by
  have hlength : before.length < (before ++ ending :: rest).length + 1 := by
    rw [List.length_append]
    omega
  obtain ⟨after, hraised, hafter, hbegun, -⟩ := h.exists_rest hplain hend
  obtain ⟨after', hraised', hafter', -, -⟩ := h'.exists_rest hplain hend
  -- Behind the end of the text no round begins.
  have hgoes : token.isEnd = false := by
    rw [← Bool.not_eq_true]
    intro htoken
    have hleaving : (raised.leaving token error).rest = token :: after := by
      simp [Cursor.leaving, hraised, resume, htoken]
    obtain rfl := hrounds.eq_of_isEnd hleaving htoken
    obtain ⟨first, others, hfirst, hgoes⟩ := h'.goes
    rw [hleaving, List.cons.injEq] at hfirst
    rw [hfirst.1, hgoes] at htoken
    contradiction
  obtain ⟨left, -, -, hleft, hleaving, -, -⟩ :=
    h.rounds_leaving.declarations_eq rfl hplain hend hlength hlength []
  obtain ⟨left', -, -, hleft', hbegun', -, -⟩ :=
    hrounds.declarations_eq hleaving (fun token hmem => hplain token (hleft.subset hmem)) hend
      (Nat.lt_of_le_of_lt hleft.length_le hlength) (Nat.lt_succ_self _) []
  have hshorter := Parser.length_resume_lt hgoes after
  have hresume : resume (token :: after) = left ++ ending :: rest := hraised ▸ hleaving
  have hkept := hleft'.length_le
  have hle := hafter'.length_le
  have hwhole := (hafter.trans hbegun).length_le
  rw [hresume, ← hraised, List.length_append] at hshorter
  rw [← hraised', hbegun', List.length_append] at hle
  rw [← hraised] at hwhole
  unfold Cursor.position
  omega

/-- A declaration that is given up leaves its error at the token where it is raised. At the end of
the text nothing else follows. Before it, reading goes on at the next place where it may, afresh,
and what is given up from then on is given up at a later place. -/
theorem recovers (hend : ∃ token ∈ tokens, token.isEnd = true)
    (h : GivesUp tokens diagnostics begun token error raised) :
    ∃ resumed parsed, ofTokens tokens diagnostics = .ok parsed ∧
      Parser.round (tokens.length + 1) begun = .ok (none, resumed) ∧
      raised.rest = tokens.drop (raised.position tokens) ∧
      tokens[raised.position tokens]? = some token ∧
      resumed.diagnostics = raised.diagnostics.grammar token error ∧
      (if token.isEnd then resumed.rest = raised.rest ∧ parsed.diagnostics = resumed.diagnostics
        else ∃ next, GoesOn tokens parsed (raised.position tokens) resumed next) ∧
      ∀ begun' token' error' raised', Parser.Rounds (tokens.length + 1) resumed begun' →
        GivesUp tokens diagnostics begun' token' error' raised' →
          raised.position tokens < raised'.position tokens := by
  obtain ⟨ending, hfirst⟩ := Option.isSome_iff_exists.mp (List.find?_isSome.mpr hend)
  obtain ⟨hending, before, rest, rfl, hbefore⟩ := List.find?_eq_some_iff_append.mp hfirst
  have hplain : ∀ token ∈ before, token.isEnd = false := by simpa using hbefore
  obtain ⟨after, hraised, hafter, hbegun, hlast⟩ := h.exists_rest hplain hending
  have hdrop := Cursor.rest_eq_drop (hraised ▸ hafter.trans hbegun)
  obtain ⟨parsed, fresh, hparsed, hfresh, hentries⟩ :=
    exists_afresh h.rounds_leaving hplain hending
  refine ⟨raised.leaving token error, parsed, hparsed, h.round_eq, hdrop, ?_, rfl, ?_, ?_⟩
  · rw [← List.head?_drop, ← hdrop, hraised, List.head?_cons]
  · split
    · next htoken =>
        have hrest : (raised.leaving token error).rest = raised.rest := by
          simp [Cursor.leaving, hraised, resume, htoken]
        -- A parser that begins at the end of the text has nothing to say.
        have hends : Parser.declarations ((token :: after).length + 1)
            ((token :: after).length + 1) [] ⟨token :: after, {}, false⟩ =
              .ok ([], ⟨token :: after, {}, false⟩) := by
          simp [Parser.declarations, htoken]
        have hsilent : ofTokens (token :: after) {} = .ok ⟨some [], {}⟩ :=
          ofTokens_of_declarations hends
        rw [hrest, hraised, hsilent] at hfresh
        cases hfresh
        refine ⟨hrest, ?_⟩
        rw [List.append_nil] at hentries
        exact congrArg Diagnostics.mk hentries
    · next hgoes =>
        rw [Bool.not_eq_true] at hgoes
        obtain ⟨next, hresume, hleast⟩ :=
          exists_resume_eq_drop (hdrop.symm.trans hraised) hgoes (hdrop ▸ hlast)
        have hrest : (raised.leaving token error).rest = _ := (hraised ▸ hresume :)
        rw [hrest] at hfresh
        exact ⟨next, hleast, hrest, fresh, hfresh, hentries⟩
  · intro begun' token' error' raised' hrounds h'
    exact h.position_lt hplain hending h' hrounds

/-- The tokens of `a = + b print ;` with the one that ends the text. Neither the assignment nor the
statement behind it is complete. -/
def strayOperator : List Token :=
  [Listing.name "a", Listing.word .equal "=", Listing.word .plus "+", Listing.name "b",
    Listing.word .printWord "print", Listing.word .semicolon ";", Listing.word .endOfText ""]

/-- Reading goes on at the word that starts a statement, not at the token after the error. -/
theorem recovers_strayOperator :
    (∃ token ∈ strayOperator, token.isEnd = true) ∧
      GivesUp strayOperator {} ⟨strayOperator, {}, false⟩ (Listing.word .plus "+")
        .expectedExpression ⟨strayOperator.drop 2, {}, false⟩ ∧
      ∃ resumed parsed, ofTokens strayOperator {} = .ok parsed ∧
        GoesOn strayOperator parsed 2 resumed 4 := by
  have hend : ∃ token ∈ strayOperator, token.isEnd = true :=
    ⟨Listing.word .endOfText "", by simp [strayOperator], rfl⟩
  have hgives : GivesUp strayOperator {} ⟨strayOperator, {}, false⟩ (Listing.word .plus "+")
      .expectedExpression ⟨strayOperator.drop 2, {}, false⟩ :=
    ⟨.refl, ⟨_, _, rfl, rfl⟩, rfl⟩
  obtain ⟨resumed, parsed, hparsed, hround, -, -, -, hgoes, -⟩ := recovers hend hgives
  obtain ⟨next, hnext⟩ := hgoes
  have hresumed : resumed.rest = strayOperator.drop 4 := by
    rw [hgives.round_eq] at hround
    cases hround
    rfl
  have hlength := congrArg List.length (hnext.rest_eq.symm.trans hresumed)
  obtain rfl : next = 4 := by
    simp [strayOperator] at hlength
    omega
  exact ⟨hend, hgives, resumed, parsed, hparsed, hnext⟩

end GivesUp

end Parsed

end Treewalk
