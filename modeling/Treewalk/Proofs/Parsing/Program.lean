import Treewalk.Parsing.Program
import Treewalk.Proofs.Parsing.StatementComplete
import Treewalk.Proofs.Parsing.StatementSound

/-!
The parser of programs is sound and complete for the documented grammar: it accepts exactly the
token lists of its listings, each with the tree of the listing.
-/

namespace Treewalk

namespace Parser

/-- When nothing was wrong, all tokens up to the end of the text are those of a row of clauses. -/
theorem declarations_derives (bound : Nat) {rounds : Nat} {done values : List Stmt}
    {start finish : Cursor} (h : declarations bound rounds done start = .ok (values, finish))
    (hfailed : finish.failed = false) :
    start.failed = false ∧ ∃ row read ending rest, values = done.reverse ++ read ∧
      ReadsRow start read finish row ∧ finish.rest = ending :: rest ∧ ending.isEnd = true := by
  induction rounds generalizing done start with
  | zero => contradiction
  | succ rounds ih =>
      unfold declarations at h
      split at h
      · contradiction
      · next token rest hrest =>
          split at h
          · next hend =>
              cases h
              exact ⟨hfailed, [], [], token, rest, by simp, .nil _, hrest, hend⟩
          · split at h
            · next value middle hvalue =>
                obtain ⟨clause, hclause⟩ :=
                  declaration_derives (statement_derives bound) bound _ _ _ hvalue
                obtain ⟨hmiddle, row, read, ending, others, rfl, hrow, hothers⟩ := ih h
                refine ⟨?_, clause :: row, value :: read, ending, others, by simp,
                  .cons hclause hrow, hothers⟩
                rw [hclause.passes.failed_eq, Bool.or_eq_false_iff] at hmiddle
                exact hmiddle.1
            · contradiction
            · -- the error has been recorded, and what is recorded stays
              obtain ⟨hmiddle, -⟩ := ih h
              contradiction

theorem declarations_before {bound : Nat} {row : List Clause}
    (hfits : ∀ clause ∈ row, clause.Fits .declaration) (hnearest : Clause.NearestRow row)
    {ending : Token} (hend : ending.isEnd = true) (rest : List Token)
    (hbound : (Clause.tokensRow row).length ≤ bound) (rounds : Nat)
    (hrounds : (Clause.tokensRow row).length < rounds) (done : List Stmt) (cursor : Cursor) :
    declarations bound rounds done (cursor.before (Clause.tokensRow row ++ ending :: rest)) =
      .ok (done.reverse ++ Clause.treeRow row,
        (cursor.noting (Clause.remarksRow row)).before (ending :: rest)) := by
  induction row generalizing rounds done cursor with
  | nil =>
      obtain ⟨rounds, rfl⟩ : ∃ fewer, rounds = fewer + 1 := ⟨rounds - 1, by omega⟩
      simp [Clause.tokensRow, Clause.treeRow, Clause.remarksRow, declarations, hend]
  | cons first others ih =>
      obtain ⟨rounds, rfl⟩ : ∃ fewer, rounds = fewer + 1 := ⟨rounds - 1, by omega⟩
      have hfirst := hfits first (by simp)
      have hothers : ∀ clause ∈ others, clause.Fits .declaration :=
        fun clause hmem => hfits clause (List.mem_cons_of_mem _ hmem)
      obtain ⟨token, body, htokens, -⟩ := hfirst.exists_first
      have hgoes : token.isEnd = false := by
        have hkind := hfirst.kind_ne_endOfText token (by simp [htokens])
        simpa [Token.isEnd] using hkind
      have hlast : ending.kind ≠ .elseWord := by
        intro helse
        simp [Token.isEnd, helse] at hend
      obtain ⟨next, after, hafter⟩ :
          ∃ next after, Clause.tokensRow others ++ ending :: rest = next :: after :=
        List.exists_cons_of_ne_nil (by simp)
      have hnext := Clause.Fits.first_ne_elseWord hothers hlast hafter
      have hlength : 0 < first.tokens.length := by simp [htokens]
      simp only [Clause.tokensRow, List.length_append] at hbound hrounds
      have hread := hfirst.read hnearest.1 bound bound cursor next after (by omega) (by omega)
        fun _ => hnext
      have hrest := ih hothers hnearest.2 (by omega) rounds (by omega) (first.tree :: done)
        (cursor.noting first.remarks)
      rw [Clause.tokensRow, List.append_assoc, hafter]
      rw [hafter] at hrest
      rw [htokens, List.cons_append] at hread ⊢
      rw [declarations]
      simp only [Cursor.rest_before, hgoes, hread]
      simp [hrest, Clause.treeRow, Clause.remarksRow, Cursor.noting_append]

end Parser

namespace Listing

/-! The text `if (a) if (b) c; else d;` as a listing. -/

def word (kind : TokenKind) (spelling : String) : Token :=
  ⟨kind, ⟨0, 0, spelling⟩, none, 1⟩

def name (spelling : String) : Token :=
  word .identifier spelling

def test (name : String) : Heading :=
  ⟨word .ifWord "if", word .leftParen "(", .var (Listing.name name), word .rightParen ")"⟩

def nestedChoice : Listing :=
  [.conditional (test "a")
    (.choice (test "b") (.expression (.var (name "c")) (word .semicolon ";"))
      (word .elseWord "else") (.expression (.var (name "d")) (word .semicolon ";")))]

theorem nestedChoice_wellFormed : nestedChoice.WellFormed := by
  have hname (spelling : String) : (Phrase.var (name spelling)).Fits .assignment := by
    iterate 9 refine .tighter ?_
    exact .var rfl
  have htest (condition : String) : (test condition).Fits .ifWord :=
    ⟨rfl, rfl, hname condition, rfl⟩
  constructor
  · rw [nestedChoice, List.forall_mem_singleton]
    exact .statement (.conditional (htest "a") (.choice (htest "b")
      (.expression (hname "c") rfl) rfl (.expression (hname "d") rfl)))
  · simp [nestedChoice, Clause.StrictRow, Clause.Strict, Phrase.Strict, test]
  · simp [nestedChoice, Clause.NearestRow, Clause.Nearest, Clause.endsOpen]

end Listing

namespace Parsed

variable {tokens : List Token} {diagnostics : Diagnostics}

theorem declarations_of_ofTokens {parsed : Parsed} (h : ofTokens tokens diagnostics = .ok parsed) :
    ∃ values cursor, Parser.declarations (tokens.length + 1) (tokens.length + 1) []
        ⟨tokens, diagnostics, false⟩ = .ok (values, cursor) ∧
      parsed = ⟨if cursor.failed then none else some values, cursor.diagnostics⟩ := by
  unfold ofTokens at h
  cases hread : Parser.declarations (tokens.length + 1) (tokens.length + 1) []
      ⟨tokens, diagnostics, false⟩ with
  | error fault => simp [hread, bind, Except.bind] at h
  | ok result =>
      simp only [hread, bind, Except.bind, pure, Except.pure, Except.ok.injEq] at h
      exact ⟨result.1, result.2, rfl, h.symm⟩

/-- What has been accepted is a listing, up to the token that ends the text. -/
theorem exists_listing {program : Program} {after : Diagnostics}
    (h : ofTokens tokens diagnostics = .ok ⟨some program, after⟩) :
    ∃ listing : Listing, ∃ ending rest, listing.WellFormed ∧ ending.isEnd = true ∧
      tokens = listing.tokens ++ ending :: rest ∧ listing.program = program ∧
      after = diagnostics := by
  obtain ⟨values, cursor, hread, hparsed⟩ := declarations_of_ofTokens h
  cases hfailed : cursor.failed with
  | true => simp [hfailed] at hparsed
  | false =>
      simp only [hfailed, Bool.false_eq_true, if_false, Parsed.mk.injEq, Option.some.injEq]
        at hparsed
      obtain ⟨rfl, rfl⟩ := hparsed
      obtain ⟨-, row, read, ending, rest, hvalues, hrow, hrest, hend⟩ :=
        Parser.declarations_derives _ hread hfailed
      have hremarks : Clause.remarksRow row = [] := by
        have heq := hrow.passes.failed_eq
        simpa [hfailed] using heq
      refine ⟨row, ending, rest, ⟨hrow.fits, ?_, hrow.nearest⟩, hend, ?_, ?_, ?_⟩
      · exact (Clause.remarksRow_eq_nil_iff row).mp hremarks
      · rw [← hrest]
        exact hrow.passes.rest_eq
      · rw [Listing.program, hrow.trees_eq, hvalues]
        rfl
      · rw [hrow.passes.finish_eq, hremarks]
        rfl

theorem ofTokens_listing {listing : Listing} (h : listing.WellFormed) {ending : Token}
    (hend : ending.isEnd = true) (rest : List Token) (diagnostics : Diagnostics) :
    ofTokens (listing.tokens ++ ending :: rest) diagnostics =
      .ok ⟨some listing.program, diagnostics⟩ := by
  have hremarks : Clause.remarksRow listing = [] :=
    (Clause.remarksRow_eq_nil_iff listing).mpr h.strict
  have hlength : listing.tokens.length < (listing.tokens ++ ending :: rest).length + 1 := by
    rw [List.length_append]
    omega
  have hread := Parser.declarations_before h.fits h.nearest hend rest (Nat.le_of_lt hlength) _
    hlength [] ⟨[], diagnostics, false⟩
  rw [hremarks, Cursor.noting_nil] at hread
  unfold ofTokens
  apply (congrArg (· >>= _) hread).trans
  rfl

/-- A program is only returned for the tokens of a listing of the grammar, up to the first that
ends the text, and it is the tree of that listing. -/
theorem ofTokens_sound {program : Program} {after : Diagnostics}
    (h : ofTokens tokens diagnostics = .ok ⟨some program, after⟩) :
    ∃ listing : Listing, listing.WellFormed ∧
      listing.tokens = tokens.takeWhile (fun token => !token.isEnd) ∧
      listing.program = program := by
  obtain ⟨listing, ending, rest, hlisting, hend, rfl, rfl, -⟩ := exists_listing h
  refine ⟨listing, hlisting, ?_, rfl⟩
  have hbefore : ∀ token ∈ listing.tokens, (!token.isEnd) = true := by
    intro token hmem
    have hkind := Clause.forall_mem_tokensRow.mpr
      (fun clause hclause => (hlisting.fits clause hclause).kind_ne_endOfText) token hmem
    simpa [Token.isEnd] using hkind
  rw [List.takeWhile_append_of_pos hbefore, List.takeWhile_cons_of_neg (by simp [hend]),
    List.append_nil]

theorem ofTokens_sound_nestedChoice :
    ∃ listing : Listing, listing.WellFormed ∧ listing.tokens = Listing.nestedChoice.tokens ∧
      listing.program = Listing.nestedChoice.program := by
  have h : ofTokens (Listing.nestedChoice.tokens ++ [Listing.word .endOfText ""]) {} =
      .ok ⟨some Listing.nestedChoice.program, {}⟩ := rfl
  exact ofTokens_sound h

/-- The tokens of every listing are accepted with the tree of the listing and nothing to complain
about. So a text is no listing with two trees. -/
theorem ofTokens_complete {listing : Listing} (h : listing.WellFormed) {ending : Token}
    (hend : ending.isEnd = true) (rest : List Token) (diagnostics : Diagnostics) :
    ofTokens (listing.tokens ++ ending :: rest) diagnostics =
        .ok ⟨some listing.program, diagnostics⟩ ∧
      ∀ other : Listing, other.WellFormed → other.tokens = listing.tokens →
        other.program = listing.program := by
  have hread := ofTokens_listing h hend rest diagnostics
  refine ⟨hread, ?_⟩
  intro other hother htokens
  have hagain := ofTokens_listing hother hend rest diagnostics
  rw [htokens, hread] at hagain
  simpa using hagain.symm

theorem ofTokens_complete_nestedChoice :
    ofTokens (Listing.nestedChoice.tokens ++ [Listing.word .endOfText ""]) {} =
        .ok ⟨some Listing.nestedChoice.program, {}⟩ ∧
      ∀ other : Listing, other.WellFormed → other.tokens = Listing.nestedChoice.tokens →
        other.program = Listing.nestedChoice.program :=
  ofTokens_complete Listing.nestedChoice_wellFormed rfl [] {}

end Parsed

end Treewalk
