import Treewalk.Proofs.Parsing.ValidPrefix

/-!
The reading of programs comes to its end at the first token that ends the text, whatever the tokens
before it are. In each round it takes a token at least; what lies behind the end makes no
difference, and there is a program exactly when nothing has been added to the diagnostics.
-/

namespace Treewalk

variable {before taken after : List Token} {ending next : Token} {remarks : List Remark}

/-! Where reading goes on after an error depends on the tokens before the end only. -/

theorem nextBeginning_append (previous : Token) (hplain : ∀ token ∈ before, token.isEnd = false)
    (hend : ending.isEnd = true) :
    ∃ left, left <:+ before ∧
      ∀ rest, nextBeginning previous (before ++ ending :: rest) = left ++ ending :: rest := by
  induction before generalizing previous with
  | nil => exact ⟨[], List.suffix_rfl, fun rest => by simp [nextBeginning, hend]⟩
  | cons token others ih =>
      by_cases hstop : (token.isEnd || previous.kind == .semicolon ||
          token.kind.startsStatement) = true
      · refine ⟨token :: others, List.suffix_rfl, fun rest => ?_⟩
        rw [List.cons_append, nextBeginning, if_pos hstop]
      · obtain ⟨left, hleft, hnext⟩ := ih token (List.forall_mem_cons.mp hplain).2
        refine ⟨left, hleft.trans (List.suffix_cons token others), fun rest => ?_⟩
        rw [List.cons_append, nextBeginning, if_neg hstop, hnext]

theorem resume_append (hplain : ∀ token ∈ before, token.isEnd = false)
    (hend : ending.isEnd = true) :
    ∃ left, left <:+ before ∧ (before ≠ [] → left.length < before.length) ∧
      ∀ rest, resume (before ++ ending :: rest) = left ++ ending :: rest := by
  cases before with
  | nil => exact ⟨[], List.suffix_rfl, by simp, fun rest => by simp [resume, hend]⟩
  | cons token others =>
      rw [List.forall_mem_cons] at hplain
      obtain ⟨left, hleft, hnext⟩ := nextBeginning_append token hplain.2 hend
      refine ⟨left, hleft.trans (List.suffix_cons token others), ?_, fun rest => ?_⟩
      · exact fun _ => Nat.lt_succ_of_le hleft.length_le
      · rw [List.cons_append, resume, if_neg (by simp [hplain.1]), hnext]

namespace Parser

theorem Takes.split (h : Takes (before ++ [ending]) taken next after remarks) :
    ∃ left, before = taken ++ left ∧
      ∀ rest, next :: (after ++ rest) = left ++ ending :: rest := by
  rcases List.append_eq_append_iff.mp h.tokens_eq with
    ⟨more, hmore, hending⟩ | ⟨left, hleft, hnext⟩
  · cases more with
    | nil =>
        cases hending
        exact ⟨[], by simpa using hmore.symm, fun rest => rfl⟩
    | cons first others => simp at hending
  · exact ⟨left, hleft, fun rest => by simpa using congrArg (· ++ rest) hnext⟩

/-- One round of the parser of programs: a declaration is read, or it is given up and left. -/
def round (bound : Nat) (cursor : Cursor) : Except Fault (Option Stmt × Cursor) :=
  match declaration (statement bound) bound cursor with
  | .ok value later => .ok (some value, later)
  | .error (.fault fault) _ => .error fault
  | .error (.abort token error) later =>
      .ok (none, (later.report token error).before (resume later.rest))

theorem declarations_round {bound rounds : Nat} {done : List Stmt} {cursor : Cursor}
    {token : Token} {rest : List Token} (hrest : cursor.rest = token :: rest)
    (hgoes : token.isEnd = false) :
    declarations bound (rounds + 1) done cursor =
      match round bound cursor with
      | .ok (read, later) => declarations bound rounds (read.toList ++ done) later
      | .error fault => .error fault := by
  rw [declarations, round, hrest]
  simp only [hgoes, Bool.false_eq_true, if_false]
  cases declaration (statement bound) bound cursor with
  | ok value later => rfl
  | error interrupt later => cases interrupt <;> rfl

/-- A round before the end of the text succeeds, takes a token at least and stops at the end. -/
theorem round_before (hplain : ∀ token ∈ before, token.isEnd = false) (hne : before ≠ [])
    (hend : ending.isEnd = true) :
    ∃ left read remarks, left <:+ before ∧ left.length < before.length ∧
      ∀ bound, before.length < bound → ∀ (cursor : Cursor) rest,
        round bound (cursor.before (before ++ ending :: rest)) =
          .ok (read, (cursor.noting remarks).before (left ++ ending :: rest)) := by
  have hlast : ∃ token ∈ before ++ [ending], token.isEnd = true := ⟨ending, by simp, hend⟩
  have hanswers := declaration_answers hlast le_rfl
  rw [List.length_append] at hanswers
  cases hanswers with
  | @reads taken after next remarks value htakes hmem hread =>
      obtain ⟨left, rfl, hnext⟩ := htakes.split
      have hpositive := Clause.Place.length_pos hmem
      refine ⟨left, some value, remarks, List.suffix_append _ _, ?_, ?_⟩
      · rw [List.length_append]
        omega
      · intro bound hbound cursor rest
        have hround := hread ⟨bound, hbound⟩ cursor (after ++ rest)
        rw [hnext, ← List.append_assoc] at hround
        rw [round, hround]
  | @aborts taken after next remarks error htakes _ _ hread =>
      obtain ⟨mid, rfl, hnext⟩ := htakes.split
      obtain ⟨left, hleft, hlength, hresume⟩ := resume_append
        (List.forall_mem_append.mp hplain).2 hend
      refine ⟨left, none, remarks ++ [⟨next, error⟩],
        hleft.trans (List.suffix_append _ _), ?_, ?_⟩
      · rw [List.length_append]
        -- A declaration can be given up without a token, but reading does not go on at that place.
        by_cases hmid : mid = []
        · have htaken := List.length_pos_iff.mpr hne
          have hle := hleft.length_le
          simp only [hmid, List.append_nil, List.length_nil] at htaken hle ⊢
          omega
        · have hlt := hlength hmid
          omega
      · intro bound hbound cursor rest
        have hround := hread ⟨bound, hbound⟩ cursor (after ++ rest)
        rw [hnext, ← List.append_assoc] at hround
        rw [round, hround]
        simp only [Cursor.rest_before, hresume, Cursor.noting_append]
        rfl

theorem declarations_ends (hplain : ∀ token ∈ before, token.isEnd = false)
    (hend : ending.isEnd = true) :
    ∃ read remarks, ∀ bound rounds, before.length < bound → before.length < rounds →
      ∀ done (cursor : Cursor) rest,
        declarations bound rounds done (cursor.before (before ++ ending :: rest)) =
          .ok (done.reverse ++ read, (cursor.noting remarks).before (ending :: rest)) := by
  -- Whatever a round reads, it leaves fewer tokens before the end.
  induction hlength : before.length using Nat.strong_induction_on generalizing before with
  | _ length ih =>
  subst hlength
  by_cases hne : before = []
  · subst hne
    refine ⟨[], [], ?_⟩
    intro bound rounds _ hrounds done cursor rest
    obtain ⟨rounds, rfl⟩ := Nat.exists_eq_add_one.mpr hrounds
    simp [declarations, hend]
  · obtain ⟨left, value, remarks, hleft, hlt, hround⟩ := round_before hplain hne hend
    obtain ⟨read, further, hrest⟩ :=
      ih _ hlt (fun token hmem => hplain token (hleft.subset hmem)) rfl
    refine ⟨value.toList ++ read, remarks ++ further, ?_⟩
    intro bound rounds hbound hrounds done cursor rest
    obtain ⟨rounds, rfl⟩ : ∃ fewer, rounds = fewer + 1 := ⟨rounds - 1, by omega⟩
    obtain ⟨token, others, rfl⟩ := List.exists_cons_of_ne_nil hne
    rw [declarations_round rfl (hplain token (by simp)), hround bound hbound]
    simp only [hrest bound rounds (by omega) (by omega), Cursor.noting_append]
    cases value <;> simp

/-- A step of the parser has taken a token and hands it on. The end of the text is never taken. -/
def HandsOn (start : Cursor) (token : Token) (finish : Cursor) : Prop :=
  (∃ kinds, .endOfText ∉ kinds ∧ accept kinds start = .ok (some token) finish) ∨
    ∃ kind place, kind ≠ .endOfText ∧ expect kind place start = .ok token finish

end Parser

/-- The place of the cursor among the tokens that are read. -/
def Cursor.position (tokens : List Token) (cursor : Cursor) : Nat :=
  tokens.length - cursor.rest.length

/-- The token that is handed on is the one before the cursor, so the cursor is not at the first. -/
theorem Parser.HandsOn.previous {tokens : List Token} {start finish : Cursor} {token : Token}
    (h : HandsOn start token finish) (hstart : start.rest <:+ tokens) :
    finish.rest <:+ tokens ∧ 0 < finish.position tokens ∧
      tokens[finish.position tokens - 1]? = some token := by
  have hrest : start.rest = token :: finish.rest := by
    rcases h with ⟨kinds, hkinds, haccept⟩ | ⟨kind, place, hkind, hexpect⟩
    · rcases ok_of_accept haccept hkinds with ⟨other, hother, -, hpasses⟩ | ⟨hnone, -⟩
      · cases hother
        exact hpasses.rest_eq
      · contradiction
    · exact (ok_of_expect hexpect hkind).2.rest_eq
  obtain ⟨passed, rfl⟩ := hstart
  rw [hrest]
  refine ⟨⟨passed ++ [token], by simp⟩, ?_, ?_⟩
  · simp [Cursor.position]
    omega
  · have hposition : finish.position (passed ++ token :: finish.rest) = passed.length + 1 := by
      simp [Cursor.position]
      omega
    simp [hposition]

/-- Whether reading goes on at a place after an error. The token there and the one before tell. -/
def Token.BeginsAt (tokens : List Token) (place : Nat) (begins : Bool) : Prop :=
  ∃ previous next, tokens[place - 1]? = some previous ∧ tokens[place]? = some next ∧
    (next.isEnd || previous.kind == .semicolon || next.kind.startsStatement) = begins

theorem Token.BeginsAt.of_drop {tokens : List Token} {count place : Nat} {begins : Bool}
    (h : BeginsAt (tokens.drop count) place begins) (hplace : 0 < place) :
    BeginsAt tokens (count + place) begins := by
  obtain ⟨previous, next, hprevious, hnext, hbegins⟩ := h
  rw [List.getElem?_drop] at hprevious hnext
  exact ⟨previous, next, by rwa [Nat.add_sub_assoc hplace], hnext, hbegins⟩

theorem nextBeginning_eq_drop (previous : Token) {tokens : List Token}
    (hend : ∃ token ∈ tokens, token.isEnd = true) :
    ∃ count, nextBeginning previous tokens = tokens.drop count ∧
      Token.BeginsAt (previous :: tokens) (count + 1) true ∧
      ∀ place, 0 < place → place < count + 1 → Token.BeginsAt (previous :: tokens) place false := by
  induction tokens generalizing previous with
  | nil => simp at hend
  | cons token rest ih =>
      cases hbegins : token.isEnd || previous.kind == .semicolon || token.kind.startsStatement with
      | true =>
          refine ⟨0, by rw [nextBeginning, if_pos hbegins, List.drop_zero], ?_, ?_⟩
          · exact ⟨previous, token, rfl, rfl, hbegins⟩
          · intro place hpositive hplace
            omega
      | false =>
          have hgoes : token.isEnd = false := by simp_all
          -- From here on, `token` is the one before, so the places are shifted by one.
          obtain ⟨count, hnext, hstops, hpasses⟩ := ih token (by simpa [hgoes] using hend)
          have hwhole {place : Nat} {begins : Bool} (hplace : 0 < place)
              (h : Token.BeginsAt (token :: rest) place begins) :
              Token.BeginsAt (previous :: token :: rest) (1 + place) begins := by
            apply Token.BeginsAt.of_drop _ hplace
            exact h
          refine ⟨count + 1, ?_, ?_, ?_⟩
          · rw [nextBeginning, if_neg (by simp [hbegins]), hnext, List.drop_succ_cons]
          · rw [Nat.add_comm]
            exact hwhole (Nat.succ_pos count) hstops
          · intro place hpositive hplace
            by_cases hfirst : place = 1
            · subst hfirst
              exact ⟨previous, token, rfl, rfl, hbegins⟩
            · obtain ⟨place, rfl⟩ : ∃ fewer, place = 1 + fewer := ⟨place - 1, by omega⟩
              exact hwhole (by omega) (hpasses place (by omega) (by omega))

theorem resume_eq_drop {tokens : List Token} {place : Nat} (hplace : place < tokens.length)
    (hgoes : tokens[place].isEnd = false)
    (hend : ∃ token ∈ tokens.drop place, token.isEnd = true) :
    ∃ next, place < next ∧ resume (tokens.drop place) = tokens.drop next ∧
      Token.BeginsAt tokens next true ∧
      ∀ between, place < between → between < next → Token.BeginsAt tokens between false := by
  have hdrop := List.drop_eq_getElem_cons hplace
  have hrest : ∃ token ∈ tokens.drop (place + 1), token.isEnd = true := by
    obtain ⟨token, hmem, htoken⟩ := hend
    rw [hdrop, List.mem_cons] at hmem
    rcases hmem with rfl | hmem
    · rw [hgoes] at htoken
      contradiction
    · exact ⟨token, hmem, htoken⟩
  obtain ⟨count, hnext, hstops, hpasses⟩ := nextBeginning_eq_drop tokens[place] hrest
  rw [← hdrop] at hstops hpasses
  refine ⟨place + (count + 1), by omega, ?_, hstops.of_drop (Nat.succ_pos count), ?_⟩
  · rw [hdrop, resume, if_neg (by simp [hgoes]), hnext, List.drop_drop]
    congr 1
    omega
  · intro between hafter hbefore
    obtain ⟨more, rfl⟩ := Nat.exists_eq_add_of_lt hafter
    exact (hpasses (more + 1) (Nat.succ_pos more) (by omega)).of_drop (Nat.succ_pos more)

namespace Parsed

/-- The tokens have been read up to the first one that ends the text. -/
structure EndsAt (tokens : List Token) (diagnostics : Diagnostics) (before : List Token)
    (ending : Token) (rest : List Token) : Prop where
  tokens_eq : tokens = before ++ ending :: rest
  isEnd_before : ∀ token ∈ before, token.isEnd = false
  isEnd_ending : ending.isEnd = true
  finish : ∃ values finish, Parser.declarations (tokens.length + 1) (tokens.length + 1) []
    ⟨tokens, diagnostics, false⟩ = .ok (values, finish) ∧ finish.rest = ending :: rest
  /-- What was in the diagnostics stays, and there is no program exactly if something has been
  added. The tokens behind the end make no difference. -/
  parsed : ∃ parsed added,
    (∀ others, ofTokens (before ++ ending :: others) diagnostics = .ok parsed) ∧
      parsed.diagnostics.entries = diagnostics.entries ++ added ∧
      (parsed.program = none ↔ added ≠ [])
  /-- A round takes one of the tokens before the end at least and goes no further than the end. -/
  round : ∀ cursor : Cursor, ∀ left ≠ [], left <:+ before → cursor.rest = left ++ ending :: rest →
    ∃ read later fewer, Parser.round (tokens.length + 1) cursor = .ok (read, later) ∧
      later.rest = fewer ++ ending :: rest ∧ fewer <:+ left ∧ fewer.length < left.length
  /-- The token that a step hands on is the one before the cursor, and there is one. -/
  handsOn : ∀ start token finish, start.rest <:+ tokens → Parser.HandsOn start token finish →
    finish.rest <:+ tokens ∧ 0 < finish.position tokens ∧
      tokens[finish.position tokens - 1]? = some token
  /-- So is the token by which the place is recognized where reading goes on after an error. -/
  resume : ∀ place < before.length, ∃ next, place < next ∧
    Treewalk.resume (tokens.drop place) = tokens.drop next ∧ Token.BeginsAt tokens next true ∧
      ∀ between, place < between → between < next → Token.BeginsAt tokens between false

/-- Tokens of which one ends the text are read up to the first such one, without a look past the
last token or before the first. -/
theorem exists_endsAt {tokens : List Token} (hend : ∃ token ∈ tokens, token.isEnd = true)
    (diagnostics : Diagnostics) :
    ∃ before ending rest, EndsAt tokens diagnostics before ending rest := by
  obtain ⟨ending, hfirst⟩ := Option.isSome_iff_exists.mp (List.find?_isSome.mpr hend)
  obtain ⟨hending, before, rest, rfl, hbefore⟩ := List.find?_eq_some_iff_append.mp hfirst
  have hplain : ∀ token ∈ before, token.isEnd = false := by simpa using hbefore
  obtain ⟨read, remarks, hread⟩ := Parser.declarations_ends hplain hending
  have hlength (others : List Token) : before.length < (before ++ ending :: others).length + 1 := by
    rw [List.length_append]
    omega
  have hparsed (others : List Token) := hread _ _ (hlength others) (hlength others) []
    ⟨[], diagnostics, false⟩ others
  -- The remarks are the same whatever stands behind the end.
  have hof (others : List Token) : ofTokens (before ++ ending :: others) diagnostics =
      .ok ⟨if remarks.isEmpty then some read else none,
        (Cursor.noting ⟨[], diagnostics, false⟩ remarks).diagnostics⟩ := by
    rw [ofTokens_of_declarations (hparsed others), Cursor.failed_before, Cursor.failed_noting]
    cases remarks <;> rfl
  refine ⟨before, ending, rest, rfl, hplain, hending, ⟨_, _, hparsed rest, rfl⟩, ?_, ?_, ?_, ?_⟩
  · refine ⟨_, remarks.map Remark.diagnostic, hof, ?_, ?_⟩
    · exact Cursor.entries_noting ⟨[], diagnostics, false⟩ remarks
    · cases remarks <;> simp
  · intro cursor left hne hleft hcursor
    obtain ⟨fewer, value, further, hfewer, hlt, hround⟩ :=
      Parser.round_before (fun token hmem => hplain token (hleft.subset hmem)) hne hending
    have hlater := hround _ (Nat.lt_of_le_of_lt hleft.length_le (hlength rest)) cursor rest
    rw [← hcursor, Cursor.before_self] at hlater
    exact ⟨value, _, fewer, hlater, rfl, hfewer, hlt⟩
  · exact fun start token finish hstart hhands => hhands.previous hstart
  · intro place hplace
    have hlt : place < (before ++ ending :: rest).length := by
      rw [List.length_append]
      omega
    refine resume_eq_drop hlt ?_ ⟨ending, ?_, hending⟩
    · rw [List.getElem_append_left hplace]
      exact hplain _ (List.getElem_mem hplace)
    · rw [List.drop_append_of_le_length (Nat.le_of_lt hplace)]
      simp

/-- The error is found before the first end, and what comes behind it is not read. -/
theorem exists_endsAt_missingOperand :
    (∃ token ∈ missingOperand ++ [Listing.name "b"], token.isEnd = true) ∧
      ∃ before ending rest, EndsAt (missingOperand ++ [Listing.name "b"]) {} before ending rest ∧
        rest = [Listing.name "b"] := by
  have hend : ∃ token ∈ missingOperand ++ [Listing.name "b"], token.isEnd = true :=
    ⟨Listing.word .endOfText "", by simp [missingOperand], rfl⟩
  obtain ⟨before, ending, rest, hends⟩ := exists_endsAt hend {}
  refine ⟨hend, before, ending, rest, hends, ?_⟩
  have hafter : (missingOperand ++ [Listing.name "b"]).dropWhile (fun token => !token.isEnd) =
      ending :: rest := by
    rw [hends.tokens_eq, List.dropWhile_append_of_pos (by simpa using hends.isEnd_before),
      List.dropWhile_cons_of_neg (by simp [hends.isEnd_ending])]
  cases hafter
  rfl

end Parsed

end Treewalk
