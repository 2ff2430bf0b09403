import Treewalk.Proofs.Parsing.Program
import Treewalk.Proofs.Parsing.ViableStatement

/-!
Where the parser first gives a declaration up, the tokens before are the beginning of a sentence,
and no sentence goes on with the token under the cursor. The first half holds because parsers take
nothing in vain, the second because the parser reads every sentence without giving up, and its
answer does not depend on what lies behind the token under the cursor.
-/

namespace Treewalk

open Computability

/-! The remarks that phrases and clauses deserve end nothing. -/

namespace Phrase

theorem targetRemarks_mild (target : Phrase) (equals : Token) :
    ∀ remark ∈ target.targetRemarks equals, remark.error.aborts = false := by
  cases target <;> simp [targetRemarks, GrammarError.aborts]

theorem countRemarks_mild (count : Nat) (argument : Phrase) :
    ∀ remark ∈ argument.countRemarks count, remark.error.aborts = false := by
  unfold countRemarks
  split <;> simp [GrammarError.aborts]

mutual

theorem remarks_mild (phrase : Phrase) :
    ∀ remark ∈ phrase.remarks, remark.error.aborts = false := by
  match phrase with
  | constant _ _ | var _ => simp [remarks]
  | group _ inner _ => simpa [remarks] using inner.remarks_mild
  | call callee _ arguments _ _ =>
      simpa [remarks, or_imp, forall_and] using
        ⟨callee.remarks_mild, remarksRow_mild 0 arguments⟩
  | unary _ operand => simpa [remarks] using operand.remarks_mild
  | binary left _ right =>
      simpa [remarks, or_imp, forall_and] using ⟨left.remarks_mild, right.remarks_mild⟩
  | assign target equals value =>
      simpa [remarks, or_imp, forall_and] using
        ⟨target.remarks_mild, value.remarks_mild, target.targetRemarks_mild equals⟩

theorem remarksRow_mild (count : Nat) (arguments : List Phrase) :
    ∀ remark ∈ remarksRow count arguments, remark.error.aborts = false := by
  match arguments with
  | [] => simp [remarksRow]
  | first :: rest =>
      simpa [remarksRow, or_imp, forall_and] using
        ⟨first.countRemarks_mild count, first.remarks_mild, remarksRow_mild (count + 1) rest⟩

end

theorem elim_remarks_mild (phrase : Option Phrase) :
    ∀ remark ∈ phrase.elim [] remarks, remark.error.aborts = false := by
  cases phrase with
  | none => simp
  | some phrase => exact phrase.remarks_mild

end Phrase

theorem Declaration.remarks_mild (declaration : Declaration) :
    ∀ remark ∈ declaration.remarks, remark.error.aborts = false := by
  obtain ⟨keyword, name, initial, semicolon⟩ := declaration
  cases initial with
  | none => simp [remarks]
  | some initial => exact initial.2.remarks_mild

theorem Counting.remarks_mild (counting : Counting) :
    ∀ remark ∈ counting.remarks, remark.error.aborts = false := by
  have hinitial : ∀ remark ∈ counting.initial.remarks, remark.error.aborts = false := by
    cases counting.initial with
    | none _ => simp [Initial.remarks]
    | declaration declared => exact declared.remarks_mild
    | expression value _ => exact value.remarks_mild
  simpa [remarks, or_imp, forall_and] using
    ⟨hinitial, Phrase.elim_remarks_mild _, Phrase.elim_remarks_mild _⟩

namespace Clause

mutual

theorem remarks_mild (clause : Clause) :
    ∀ remark ∈ clause.remarks, remark.error.aborts = false := by
  match clause with
  | expression value _ | print _ value _ => simpa [remarks] using value.remarks_mild
  | declare declaration => simpa [remarks] using declaration.remarks_mild
  | block _ body _ => simpa [remarks] using remarksRow_mild body
  | conditional heading consequent =>
      simpa [remarks, or_imp, forall_and] using
        ⟨heading.condition.remarks_mild, consequent.remarks_mild⟩
  | choice heading consequent _ alternative =>
      simpa [remarks, or_imp, forall_and] using
        ⟨heading.condition.remarks_mild, consequent.remarks_mild, alternative.remarks_mild⟩
  | whileLoop heading body =>
      simpa [remarks, or_imp, forall_and] using
        ⟨heading.condition.remarks_mild, body.remarks_mild⟩
  | forLoop counting body =>
      simpa [remarks, or_imp, forall_and] using ⟨counting.remarks_mild, body.remarks_mild⟩

theorem remarksRow_mild (row : List Clause) :
    ∀ remark ∈ remarksRow row, remark.error.aborts = false := by
  match row with
  | [] => simp [remarksRow]
  | first :: rest =>
      simpa [remarksRow, or_imp, forall_and] using ⟨first.remarks_mild, remarksRow_mild rest⟩

end

end Clause

/-! The diagnostics of remarks. -/

def Remark.diagnostic (remark : Remark) : Diagnostic :=
  ⟨remark.token.line, remark.token.location, .grammar remark.error⟩

/-- A diagnostic of an error that ends a declaration. -/
def Diagnostic.aborts (diagnostic : Diagnostic) : Bool :=
  match diagnostic.complaint with
  | .lexical _ => false
  | .grammar error => error.aborts

namespace Cursor

theorem entries_report (cursor : Cursor) (token : Token) (error : GrammarError) :
    (cursor.report token error).diagnostics.entries =
      cursor.diagnostics.entries ++ [(⟨token, error⟩ : Remark).diagnostic] := rfl

theorem entries_noting (cursor : Cursor) (remarks : List Remark) :
    (cursor.noting remarks).diagnostics.entries =
      cursor.diagnostics.entries ++ remarks.map Remark.diagnostic := by
  induction remarks generalizing cursor with
  | nil => simp
  | cons remark remarks ih =>
      have hrest := ih (cursor.report remark.token remark.error)
      rw [entries_report, List.append_assoc] at hrest
      exact hrest

end Cursor

namespace Parser

theorem length_nextBeginning_le (previous : Token) (tokens : List Token) :
    (nextBeginning previous tokens).length ≤ tokens.length := by
  induction tokens generalizing previous with
  | nil => exact le_rfl
  | cons token rest ih =>
      unfold nextBeginning
      split
      · exact le_rfl
      · exact (ih token).trans (Nat.le_succ _)

theorem exists_end_nextBeginning (previous : Token) {tokens : List Token}
    (h : ∃ token ∈ tokens, token.isEnd = true) :
    ∃ token ∈ nextBeginning previous tokens, token.isEnd = true := by
  induction tokens generalizing previous with
  | nil => simp at h
  | cons token rest ih =>
      unfold nextBeginning
      split
      · exact h
      · next hgoes =>
          have hplain : token.isEnd = false := by simp_all
          exact ih token (by simpa [hplain] using h)

theorem exists_end_resume {tokens : List Token} (h : ∃ token ∈ tokens, token.isEnd = true) :
    ∃ token ∈ resume tokens, token.isEnd = true := by
  cases tokens with
  | nil => exact h
  | cons token rest =>
      rw [resume]
      split
      · exact h
      · next hgoes => exact exists_end_nextBeginning token (by simpa [hgoes] using h)

theorem length_resume_le (tokens : List Token) : (resume tokens).length ≤ tokens.length := by
  cases tokens with
  | nil => exact le_rfl
  | cons token rest =>
      rw [resume]
      split
      · exact le_rfl
      · exact (length_nextBeginning_le token rest).trans (Nat.le_succ _)

theorem length_resume_lt {token : Token} (h : token.isEnd = false) (rest : List Token) :
    (resume (token :: rest)).length < (token :: rest).length := by
  simpa [resume, h] using Nat.lt_succ_of_le (length_nextBeginning_le token rest)

variable {bound rounds : Nat} {cursor middle : Cursor} {taken rest after : List Token}
  {token next : Token} {remarks : List Remark}

theorem declarations_reads (htakes : Takes (token :: rest) taken next after remarks)
    (hgoes : token.isEnd = false) {value : Stmt} (behind : List Token)
    (h : declaration (statement bound) bound (cursor.before (taken ++ next :: behind)) =
      .ok value (middle.before (next :: behind))) (done : List Stmt) :
    declarations bound (rounds + 1) done (cursor.before (taken ++ next :: behind)) =
      declarations bound rounds (value :: done) (middle.before (next :: behind)) := by
  obtain ⟨between, hbetween⟩ := htakes.exists_cons behind
  rw [hbetween] at h ⊢
  simp [declarations, hgoes, h]

theorem declarations_aborts (htakes : Takes (token :: rest) taken next after remarks)
    (hgoes : token.isEnd = false) {error : GrammarError} (behind : List Token)
    (h : declaration (statement bound) bound (cursor.before (taken ++ next :: behind)) =
      .error (.abort next error) (middle.before (next :: behind))) (done : List Stmt) :
    declarations bound (rounds + 1) done (cursor.before (taken ++ next :: behind)) =
      declarations bound rounds done
        ((middle.report next error).before (resume (next :: behind))) := by
  obtain ⟨between, hbetween⟩ := htakes.exists_cons behind
  rw [hbetween] at h ⊢
  simp only [declarations, Cursor.rest_before, hgoes, h]
  rfl

/-- What is left after a declaration has been given up is less than what was there before. -/
theorem length_resume_of_takes (htakes : Takes (token :: rest) taken next after remarks)
    (hgoes : token.isEnd = false) (behind : List Token) :
    (resume (next :: behind)).length < (taken ++ next :: behind).length := by
  cases taken with
  | nil =>
      obtain ⟨rfl, -⟩ := List.cons_eq_cons.mp htakes.tokens_eq
      exact length_resume_lt hgoes behind
  | cons first others =>
      have hle := length_resume_le (next :: behind)
      rw [List.cons_append, List.length_cons, List.length_append]
      omega

theorem declaration_answers {limit : Nat} {tokens : List Token}
    (hend : ∃ token ∈ tokens, token.isEnd = true) (hlength : tokens.length ≤ limit) :
    Answers Clause.Place.declaration.language
      (fun bound : {bound : Nat // limit ≤ bound} => declaration (statement bound) bound) tokens :=
  (declaration_viable (statement_viable _ fun bound => bound.2) fun bound => bound.2).answers
    tokens hend hlength

/-- Before tokens that have an end, the parser of programs comes to a result if it has enough
rounds, and it only adds to the diagnostics. -/
theorem declarations_total {tokens : List Token} (hend : ∃ token ∈ tokens, token.isEnd = true)
    (hbound : tokens.length ≤ bound) (hrounds : tokens.length < rounds) (done : List Stmt)
    (cursor : Cursor) :
    ∃ values finish added, declarations bound rounds done (cursor.before tokens) =
        .ok (values, finish) ∧
      finish.diagnostics.entries = cursor.diagnostics.entries ++ added := by
  induction rounds generalizing tokens done cursor with
  | zero => contradiction
  | succ rounds ih =>
      obtain _ | ⟨token, rest⟩ := tokens
      · simp at hend
      cases hgoes : token.isEnd with
      | true =>
          refine ⟨done.reverse, cursor.before (token :: rest), [], ?_, by simp [Cursor.before]⟩
          simp [declarations, hgoes]
      | false =>
          cases declaration_answers hend hbound with
          | @reads taken after next remarks value htakes hmem hread =>
              have hlength := htakes.length_eq
              have hpositive := Clause.Place.length_pos hmem
              obtain ⟨values, finish, added, hrest, hentries⟩ := ih (htakes.exists_end hend)
                (by omega) (by omega) (value :: done) (cursor.noting remarks)
              rw [Cursor.entries_noting, List.append_assoc] at hentries
              refine ⟨values, finish, _, ?_, hentries⟩
              rw [htakes.tokens_eq, declarations_reads htakes hgoes after
                (hread ⟨bound, le_rfl⟩ cursor after), hrest]
          | @aborts taken after next remarks error htakes _ _ hread =>
              have hlength := length_resume_of_takes htakes hgoes after
              rw [← htakes.tokens_eq] at hlength
              obtain ⟨values, finish, added, hrest, hentries⟩ :=
                ih (exists_end_resume (htakes.exists_end hend)) (by omega) (by omega) done
                  ((cursor.noting remarks).report next error)
              rw [Cursor.entries_report, Cursor.entries_noting, List.append_assoc,
                List.append_assoc] at hentries
              refine ⟨values, finish, _, ?_, hentries⟩
              rw [htakes.tokens_eq, declarations_aborts htakes hgoes after
                (hread ⟨bound, le_rfl⟩ cursor after), hrest]

/-- The parser of programs gives a declaration up at a token, whatever lies behind it. -/
def GivesUp (limit : Nat) (taken : List Token) (remarks : List Remark) (next : Token)
    (error : GrammarError) : Prop :=
  ∀ bound rounds done (cursor : Cursor) behind, limit ≤ bound →
    (∃ last ∈ next :: behind, last.isEnd = true) →
    (taken ++ next :: behind).length ≤ bound → (taken ++ next :: behind).length < rounds →
    ∃ values finish added,
      declarations bound rounds done (cursor.before (taken ++ next :: behind)) =
        .ok (values, finish) ∧
      finish.diagnostics.entries =
        ((cursor.noting remarks).report next error).diagnostics.entries ++ added

/-- How far the parser of programs gets without giving a declaration up. -/
inductive Advances (limit : Nat) (tokens : List Token) : Prop where
  | finishes {taken rest : List Token} {next : Token} {remarks : List Remark} :
      Takes tokens taken next rest remarks → taken ∈ Listing.sentences → next.isEnd = true →
      (∀ bound rounds done (cursor : Cursor) behind, limit ≤ bound → taken.length < rounds →
        ∃ values, declarations bound rounds done (cursor.before (taken ++ next :: behind)) =
          .ok (values, (cursor.noting remarks).before (next :: behind))) →
      Advances limit tokens
  | aborts {taken rest : List Token} {next : Token} {remarks : List Remark}
      (error : GrammarError) : Takes tokens taken next rest remarks →
      (∃ more, taken ++ more ∈ Listing.sentences) → error.aborts = true →
      GivesUp limit taken remarks next error → Advances limit tokens

/-- The parsers of declarations whose bounds the tokens do not use up read a declaration. -/
def ReadsFirst (limit : Nat) (taken : List Token) (remarks : List Remark) (next : Token)
    (value : Stmt) : Prop :=
  ∀ bound (cursor : Cursor) behind, limit ≤ bound →
    declaration (statement bound) bound (cursor.before (taken ++ next :: behind)) =
      .ok value ((cursor.noting remarks).before (next :: behind))

theorem ReadsFirst.declarations_eq {limit : Nat} {value : Stmt} {others later : List Token}
    {last : Token} {further : List Remark} (h : ReadsFirst limit taken remarks next value)
    (htakes : Takes (token :: rest) taken next after remarks) (hgoes : token.isEnd = false)
    (hothers : Takes (next :: after) others last later further) (behind : List Token)
    (hbound : limit ≤ bound) (done : List Stmt) (cursor : Cursor) :
    declarations bound (rounds + 1) done (cursor.before (taken ++ others ++ last :: behind)) =
      declarations bound rounds (value :: done)
        ((cursor.noting remarks).before (others ++ last :: behind)) := by
  obtain ⟨between, hbetween⟩ := hothers.exists_cons behind
  rw [List.append_assoc, hbetween]
  exact declarations_reads htakes hgoes between (h bound cursor between hbound) done

/-- Behind a declaration the parser of programs gets as far as without it. -/
theorem Advances.cons {limit : Nat} {value : Stmt} (h : Advances limit (next :: after))
    (htakes : Takes (token :: rest) taken next after remarks) (hgoes : token.isEnd = false)
    (hmem : taken ∈ Clause.Place.declaration.language)
    (hread : ReadsFirst limit taken remarks next value) : Advances limit (token :: rest) := by
  cases h with
  | finishes htakes' hmem' hlast hrun =>
      refine .finishes (htakes.trans htakes') (Listing.append_mem_sentences hmem hmem') hlast ?_
      intro bound rounds done cursor behind hbound hrounds
      obtain ⟨rounds, rfl⟩ : ∃ fewer, rounds = fewer + 1 := ⟨rounds - 1, by omega⟩
      have hpositive := Clause.Place.length_pos hmem
      rw [List.length_append] at hrounds
      rw [hread.declarations_eq htakes hgoes htakes' behind hbound, Cursor.noting_append]
      exact hrun bound rounds _ _ behind hbound (by omega)
  | aborts error htakes' hmore haborts hgives =>
      obtain ⟨more, hmore⟩ := hmore
      have hsentence := Listing.append_mem_sentences hmem hmore
      rw [← List.append_assoc] at hsentence
      refine .aborts error (htakes.trans htakes') ⟨more, hsentence⟩ haborts ?_
      intro bound rounds done cursor behind hbound hlast hlength hrounds
      obtain ⟨rounds, rfl⟩ : ∃ fewer, rounds = fewer + 1 := ⟨rounds - 1, by omega⟩
      have hpositive := Clause.Place.length_pos hmem
      rw [List.append_assoc, List.length_append] at hlength hrounds
      rw [hread.declarations_eq htakes hgoes htakes' behind hbound, Cursor.noting_append]
      exact hgives bound rounds _ _ behind hbound hlast (by omega) (by omega)

theorem advances {limit : Nat} {tokens : List Token}
    (hend : ∃ token ∈ tokens, token.isEnd = true) (hlimit : tokens.length ≤ limit) :
    Advances limit tokens := by
  induction hlength : tokens.length using Nat.strong_induction_on generalizing tokens with
  | _ length ih =>
  subst hlength
  obtain _ | ⟨token, rest⟩ := tokens
  · simp at hend
  cases hgoes : token.isEnd with
  | true =>
      refine .finishes (.refl token rest) Listing.nil_mem_sentences hgoes ?_
      intro bound rounds done cursor behind _ hrounds
      obtain ⟨rounds, rfl⟩ : ∃ fewer, rounds = fewer + 1 := ⟨rounds - 1, by omega⟩
      exact ⟨done.reverse, by simp [declarations, hgoes]⟩
  | false =>
      cases declaration_answers hend hlimit with
      | @reads taken after next remarks value htakes hmem hread =>
          have hlength := htakes.length_eq
          have hpositive := Clause.Place.length_pos hmem
          have hrest := ih _ (by omega) (htakes.exists_end hend) (by omega) rfl
          exact hrest.cons htakes hgoes hmem fun bound cursor behind hbound =>
            hread ⟨bound, hbound⟩ cursor behind
      | @aborts taken after next remarks error htakes hmore haborts hread =>
          obtain ⟨more, hmore⟩ := hmore
          have hsentence := Listing.append_mem_sentences hmore Listing.nil_mem_sentences
          rw [List.append_nil] at hsentence
          refine .aborts error htakes ⟨more, hsentence⟩ haborts ?_
          intro bound rounds done cursor behind hbound hlast hlength hrounds
          obtain ⟨rounds, rfl⟩ : ∃ fewer, rounds = fewer + 1 := ⟨rounds - 1, by omega⟩
          have hresume := length_resume_of_takes htakes hgoes behind
          have hread : declaration (statement bound) bound _ = _ :=
            hread ⟨bound, hbound⟩ cursor behind
          rw [declarations_aborts htakes hgoes behind hread]
          exact declarations_total (exists_end_resume hlast) (by omega) (by omega) done _

end Parser

namespace Listing

/-- The tokens can be continued to a sentence. -/
def Begins (tokens : List Token) : Prop :=
  ∃ more, tokens ++ more ∈ sentences

/-- A sentence is read with remarks only. -/
theorem read_sentence {tokens : List Token} (h : tokens ∈ sentences) {ending : Token}
    (hend : ending.isEnd = true) (rest : List Token) {bound rounds : Nat}
    (hbound : tokens.length ≤ bound) (hrounds : tokens.length < rounds) (cursor : Cursor) :
    ∃ values remarks,
      Parser.declarations bound rounds [] (cursor.before (tokens ++ ending :: rest)) =
        .ok (values, (cursor.noting remarks).before (ending :: rest)) ∧
      ∀ remark ∈ remarks, remark.error.aborts = false := by
  obtain ⟨listing, hfits, rfl⟩ := h
  obtain ⟨nearest, hfits, hnearest, htokens, -⟩ :=
    Clause.exists_nearestRow fun clause hmem => (hfits clause hmem).exists_nearest
  rw [tokens, ← htokens] at hbound hrounds ⊢
  have hread := Parser.declarations_before hfits hnearest hend rest hbound rounds hrounds [] cursor
  exact ⟨_, _, hread, Clause.remarksRow_mild nearest⟩

end Listing

/-- No sentence leads to where a declaration is given up. -/
theorem Parser.GivesUp.ne_of_mem_sentences {limit : Nat} {tokens taken rest : List Token}
    {next : Token} {remarks : List Remark} {error : GrammarError}
    (h : GivesUp limit taken remarks next error) (htakes : Takes tokens taken next rest remarks)
    (haborts : error.aborts = true) {sentence : List Token} (hmem : sentence ∈ Listing.sentences)
    {ending : Token} (hend : ending.isEnd = true) (after behind : List Token) :
    sentence ++ ending :: after ≠ taken ++ next :: behind := by
  intro heq
  have hlast : ∃ last ∈ next :: behind, last.isEnd = true := by
    have hending : ending ∈ taken ++ next :: behind := by simp [← heq]
    rcases List.mem_append.mp hending with hending | hending
    · simp [htakes.isEnd_eq ending hending] at hend
    · exact ⟨ending, hending, hend⟩
  have hlength : sentence.length ≤ (taken ++ next :: behind).length := by simp [← heq]
  obtain ⟨values, finish, added, hrun, hentries⟩ :=
    h (limit + (taken ++ next :: behind).length) ((taken ++ next :: behind).length + 1) []
      ⟨[], {}, false⟩ behind (by omega) hlast (by omega) (by omega)
  obtain ⟨values', noted, hread, hmild⟩ := Listing.read_sentence hmem hend after
    (by omega : _ ≤ limit + (taken ++ next :: behind).length)
    (by omega : _ < (taken ++ next :: behind).length + 1) ⟨[], {}, false⟩
  rw [heq, hrun] at hread
  cases hread
  -- the abort is one of the entries, and none of them is one
  have hentry : Remark.diagnostic ⟨next, error⟩ ∈ noted.map Remark.diagnostic := by
    have hnoted := Cursor.entries_noting ⟨[], {}, false⟩ noted
    rw [List.nil_append] at hnoted
    rw [← hnoted]
    have hentries : (Cursor.noting ⟨[], {}, false⟩ noted).diagnostics.entries = _ := hentries
    rw [hentries, Cursor.entries_report]
    simp
  obtain ⟨remark, hremark, hsame⟩ := List.mem_map.mp hentry
  have herror : remark.error = error := by
    simpa [Remark.diagnostic] using congrArg Diagnostic.complaint hsame
  simp [← herror, hmild remark hremark] at haborts

namespace Parsed

theorem ofTokens_of_declarations {tokens : List Token} {diagnostics : Diagnostics}
    {values : List Stmt} {finish : Cursor}
    (h : Parser.declarations (tokens.length + 1) (tokens.length + 1) []
      ⟨tokens, diagnostics, false⟩ = .ok (values, finish)) :
    ofTokens tokens diagnostics =
      .ok ⟨if finish.failed then none else some values, finish.diagnostics⟩ := by
  unfold ofTokens
  exact (congrArg (· >>= _) h).trans rfl

theorem find?_eq_none_of_mild {remarks : List Remark}
    (h : ∀ remark ∈ remarks, remark.error.aborts = false) :
    (remarks.map Remark.diagnostic).find? Diagnostic.aborts = none := by
  simpa [List.find?_eq_none, Remark.diagnostic, Diagnostic.aborts] using h

/-- A reading that gives declarations up first does so at a token with which no sentence goes on,
or that ends the text too early, while the tokens before begin a sentence. A reading that gives none
up has found a sentence. -/
theorem ofTokens_validPrefix {tokens : List Token} (hend : ∃ token ∈ tokens, token.isEnd = true)
    (diagnostics : Diagnostics) :
    ∃ parsed added, ofTokens tokens diagnostics = .ok parsed ∧
      parsed.diagnostics.entries = diagnostics.entries ++ added ∧
      match added.find? Diagnostic.aborts with
      | none => tokens.takeWhile (fun token => !token.isEnd) ∈ Listing.sentences
      | some diagnostic => ∃ i token error, tokens[i]? = some token ∧
          diagnostic = Remark.diagnostic ⟨token, error⟩ ∧ Listing.Begins (tokens.take i) ∧
          if token.isEnd then tokens.take i ∉ Listing.sentences
          else ¬ Listing.Begins (tokens.take (i + 1)) := by
  cases Parser.advances hend le_rfl with
  | @finishes taken rest next remarks htakes hmem hlast hrun =>
      have hlength := htakes.length_eq
      obtain ⟨values, hrun⟩ := hrun (tokens.length + 1) (tokens.length + 1) []
        ⟨tokens, diagnostics, false⟩ rest (by omega) (by omega)
      rw [← htakes.tokens_eq] at hrun
      refine ⟨_, remarks.map Remark.diagnostic, ofTokens_of_declarations hrun, ?_, ?_⟩
      · exact Cursor.entries_noting ⟨tokens, diagnostics, false⟩ remarks
      · rw [find?_eq_none_of_mild htakes.mild, htakes.tokens_eq,
          List.takeWhile_append_of_pos (by simpa using htakes.isEnd_eq),
          List.takeWhile_cons_of_neg (by simp [hlast]), List.append_nil]
        exact hmem
  | @aborts taken rest next remarks error htakes hmore haborts hgives =>
      have htokens := htakes.tokens_eq
      have hlast := htakes.exists_end hend
      obtain ⟨values, finish, added, hrun, hentries⟩ := hgives (tokens.length + 1)
        (tokens.length + 1) [] ⟨tokens, diagnostics, false⟩ rest (by omega) hlast
        (htokens ▸ Nat.le_succ _) (htokens ▸ Nat.lt_succ_self _)
      rw [← htokens] at hrun
      rw [Cursor.entries_report, Cursor.entries_noting, List.append_assoc, List.append_assoc]
        at hentries
      refine ⟨_, _, ofTokens_of_declarations hrun, hentries, ?_⟩
      have hdiagnostic : (Remark.diagnostic ⟨next, error⟩).aborts = true := haborts
      rw [List.find?_append, find?_eq_none_of_mild htakes.mild]
      simp only [List.singleton_append, List.find?_cons, hdiagnostic, Option.none_or]
      have htake : tokens.take taken.length = taken := by simp [htokens]
      refine ⟨taken.length, next, error, by simp [htokens], rfl, htake.symm ▸ hmore, ?_⟩
      split
      · next hnext =>
          rw [htake]
          exact fun hmem =>
            hgives.ne_of_mem_sentences htakes haborts hmem hnext rest rest rfl
      · rintro ⟨more, hmem⟩
        obtain ⟨ending, -, hending⟩ := hend
        have htake : tokens.take (taken.length + 1) = taken ++ [next] := by
          simp [htokens, List.take_length_add_append]
        rw [htake] at hmem
        exact hgives.ne_of_mem_sentences htakes haborts hmem hending [] (more ++ [ending])
          (by simp)

/-- The tokens of `print a + ;` with the one that ends the text. -/
def missingOperand : List Token :=
  [Listing.word .printWord "print", Listing.name "a", Listing.word .plus "+",
    Listing.word .semicolon ";", Listing.word .endOfText ""]

theorem ofTokens_validPrefix_missingOperand :
    Listing.Begins (missingOperand.take 3) ∧ ¬ Listing.Begins (missingOperand.take 4) := by
  have hend : ∃ token ∈ missingOperand, token.isEnd = true :=
    ⟨Listing.word .endOfText "", by simp [missingOperand], rfl⟩
  obtain ⟨parsed, added, hparsed, hentries, hfirst⟩ := ofTokens_validPrefix hend {}
  have hread : ofTokens missingOperand {} =
      .ok ⟨none, ⟨[Remark.diagnostic ⟨Listing.word .semicolon ";", .expectedExpression⟩]⟩⟩ := rfl
  rw [hread] at hparsed
  cases hparsed
  rw [List.nil_append] at hentries
  subst hentries
  obtain ⟨i, token, error, htoken, hdiagnostic, hbegins, hblamed⟩ := hfirst
  have hlocation : (Listing.word .semicolon ";").location = token.location :=
    congrArg Diagnostic.location hdiagnostic
  -- only the semicolon stands where the error is reported
  rcases i with _ | _ | _ | _ | _ | i
  · cases htoken
    exact absurd hlocation (by decide)
  · cases htoken
    exact absurd hlocation (by decide)
  · cases htoken
    exact absurd hlocation (by decide)
  · cases htoken
    exact ⟨hbegins, hblamed⟩
  · cases htoken
    exact absurd hlocation (by decide)
  · simp [missingOperand] at htoken

end Parsed

end Treewalk
