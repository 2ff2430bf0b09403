import Treewalk.Proofs.Lexing.Joining
import Treewalk.Proofs.Parsing.Program
import Treewalk.Proofs.Parsing.Reading

/-!
The program of two texts, one behind the other on lines of its own, is the program of the one
followed by the program of the other, which stands further down.
-/

namespace Treewalk

/-- What stands before the first token that ends a text is told by the whole. -/
theorem Token.eq_of_append_end {first second rest rest' : List Token} {ending ending' : Token}
    (hfirst : ∀ token ∈ first, token.isEnd = false)
    (hsecond : ∀ token ∈ second, token.isEnd = false) (hend : ending.isEnd = true)
    (hend' : ending'.isEnd = true) (h : first ++ ending :: rest = second ++ ending' :: rest') :
    first = second := by
  have hbefore {tokens : List Token} (htokens : ∀ token ∈ tokens, token.isEnd = false)
      {last : Token} (hlast : last.isEnd = true) (others : List Token) :
      (tokens ++ last :: others).takeWhile (fun token => !token.isEnd) = tokens := by
    rw [List.takeWhile_append_of_pos (by simpa using htokens),
      List.takeWhile_cons_of_neg (by simp [hlast]), List.append_nil]
  rw [← hbefore hfirst hend rest, h, hbefore hsecond hend' rest']

theorem Correspondence.isEnd_eq_false (related : Correspondence) {tokens tokens' : List Token}
    (h : List.Forall₂ related.token tokens tokens')
    (hplain : ∀ token ∈ tokens, token.isEnd = false) : ∀ token ∈ tokens', token.isEnd = false := by
  induction h with
  | nil => simp
  | cons htoken _ ih =>
      rw [List.forall_mem_cons] at hplain ⊢
      exact ⟨(related.isEnd_eq htoken).symm.trans hplain.1, ih hplain.2⟩

/-! Listings behind one another. -/

namespace Listing

variable {listing other : Listing}

theorem WellFormed.append (h : listing.WellFormed) (hother : other.WellFormed) :
    Listing.WellFormed (listing ++ other) where
  fits := List.forall_mem_append.mpr ⟨h.fits, hother.fits⟩
  strict := by
    rw [Clause.strictRow_iff, List.forall_mem_append]
    exact ⟨Clause.strictRow_iff.mp h.strict, Clause.strictRow_iff.mp hother.strict⟩
  nearest := by
    rw [Clause.nearestRow_iff, List.forall_mem_append]
    exact ⟨Clause.nearestRow_iff.mp h.nearest, Clause.nearestRow_iff.mp hother.nearest⟩

theorem WellFormed.isEnd_eq_false (h : listing.WellFormed) :
    ∀ token ∈ listing.tokens, token.isEnd = false := by
  intro token hmem
  have hkind := Clause.forall_mem_tokensRow.mpr
    (fun clause hclause => (h.fits clause hclause).kind_ne_endOfText) token hmem
  simpa [Token.isEnd] using hkind

theorem WellFormed.program_eq (h : listing.WellFormed) (hother : other.WellFormed)
    (htokens : listing.tokens = other.tokens) : listing.program = other.program := by
  have hend : Token.isEnd ⟨.endOfText, ⟨0, 0, ""⟩, none, 1⟩ = true := rfl
  have hread := Parsed.ofTokens_listing h hend [] {}
  rw [htokens, Parsed.ofTokens_listing hother hend] at hread
  simpa using hread.symm

/-- Tokens that correspond to those of a listing are those of another one. -/
theorem WellFormed.alike (h : listing.WellFormed) (related : Correspondence)
    {tokens : List Token} (htokens : List.Forall₂ related.token listing.tokens tokens)
    {ending ending' : Token} (hending : related.token ending ending') (hend : ending.isEnd = true)
    (hdiagnostics : related.diagnostics {} {}) :
    ∃ other : Listing, other.WellFormed ∧ other.tokens = tokens ∧
      Stmt.RelatedRow related.token listing.program other.program := by
  have hread := Parsed.ofTokens_alike related (List.rel_append htokens (.cons hending .nil))
    hdiagnostics
  rw [Parsed.ofTokens_listing h hend [] {}] at hread
  generalize hresult : Parsed.ofTokens (tokens ++ [ending']) {} = result at hread
  cases hread with
  | @ok _ parsed hprogram _ =>
      obtain ⟨program, after⟩ := parsed
      cases hprogram with
      | some hrelated =>
          obtain ⟨other, ending'', rest, hother, hend'', heq, rfl, -⟩ :=
            Parsed.exists_listing hresult
          refine ⟨other, hother, ?_, hrelated⟩
          have hplain := related.isEnd_eq_false htokens h.isEnd_eq_false
          exact (Token.eq_of_append_end hplain hother.isEnd_eq_false
            (related.isEnd_eq hending ▸ hend) hend'' heq).symm

end Listing

/-! What an interpreter reads. -/

/-- A text without complaints, as a listing read from a line on. -/
structure Listing.Reads (names : Names) (line : Line) (text : String) (listing : Listing) :
    Prop where
  wellFormed : listing.WellFormed
  read : Segment.Read names line (Segment.ofText text.toList) listing.tokens []

namespace Interpreter

variable {interpreter : Interpreter} {source : String}

/-- The names known after a text has been read. -/
def namesAfter (interpreter : Interpreter) (source : String) : Names :=
  (interpreter.parse source).2.vocabulary.names

theorem reads_of_parse (hvalid : interpreter.vocabulary.Valid) {program : Program}
    (h : (interpreter.parse source).1 = .ok program) :
    ∃ listing : Listing, listing.Reads (interpreter.namesAfter source) 1 source ∧
      listing.program = program := by
  obtain ⟨tokens, ending, complaints, hread, hplain, hending, htokens, hcomplaints⟩ :=
    Lexed.ofText_reads source hvalid {}
  rw [namesAfter, vocabulary_parse]
  unfold parse at h
  dsimp only at h ⊢
  generalize Lexed.ofText source interpreter.vocabulary {} = lexed at *
  split at h
  · next hempty =>
      obtain rfl : complaints = [] := by
        rw [Diagnostics.isEmpty, List.isEmpty_iff, hcomplaints] at hempty
        exact hempty
      split at h
      · contradiction
      · next parsed hparsed =>
          obtain ⟨result, after⟩ := parsed
          cases result with
          | none => contradiction
          | some result =>
              cases h
              obtain ⟨listing, ending', rest, hlisting, hend, heq, rfl, -⟩ :=
                Parsed.exists_listing hparsed
              rw [htokens] at heq
              have hlast : ending.isEnd = true := by simp [Token.isEnd, hending.kind_eq]
              have hwhole := Token.eq_of_append_end hplain hlisting.isEnd_eq_false hlast hend heq
              exact ⟨listing, ⟨hlisting, hwhole ▸ hread⟩, rfl⟩
  · contradiction

/-- What an interpreter reads of a text, and that it accepts the text if that is a listing. -/
theorem exists_read (hvalid : interpreter.vocabulary.Valid) (source : String) :
    ∃ tokens complaints, Segment.Read (interpreter.namesAfter source) 1
        (Segment.ofText source.toList) tokens complaints ∧
      ∀ listing : Listing, listing.WellFormed → listing.tokens = tokens → complaints = [] →
        (interpreter.parse source).1 = .ok listing.program := by
  obtain ⟨tokens, ending, complaints, hread, -, hending, htokens, hcomplaints⟩ :=
    Lexed.ofText_reads source hvalid {}
  rw [namesAfter, vocabulary_parse]
  refine ⟨tokens, complaints, hread, ?_⟩
  rintro listing hlisting rfl rfl
  have hlast : ending.isEnd = true := by simp [Token.isEnd, hending.kind_eq]
  have hempty : (Lexed.ofText source interpreter.vocabulary {}).diagnostics.isEmpty = true := by
    rw [Diagnostics.isEmpty, hcomplaints]
    rfl
  unfold parse
  dsimp only
  rw [if_pos hempty, htokens, Parsed.ofTokens_listing hlisting hlast]

theorem namesAfter_knows (hvalid : interpreter.vocabulary.Valid) (source : String) :
    ∃ symbol, (interpreter.namesAfter source).Knows symbol ∧ symbol.spelling = "" := by
  obtain ⟨-, ending, -, -, -, hending, -⟩ := Lexed.ofText_reads source hvalid {}
  rw [namesAfter, vocabulary_parse]
  exact ⟨_, hending.knows, hending.spelling_eq⟩

end Interpreter

/-! A listing further down. -/

def Correspondence.raised (lines : Nat) (names others : Names) : Correspondence where
  token := Token.Raised lines names others
  diagnostics _ _ := True
  kind_eq h := h.kind_eq
  literal_eq h := h.literal_eq
  report _ _ _ := trivial

/-- A text that is a listing is the same listing further down. -/
theorem Listing.Reads.raised {names others : Names} {text : String} {listing : Listing}
    (h : listing.Reads names 1 text) (hempty : ∃ symbol, names.Knows symbol ∧ symbol.spelling = "")
    (hempty' : ∃ symbol, others.Knows symbol ∧ symbol.spelling = "") {line : Line} {lines : Nat}
    {tokens : List Token} {complaints : List Diagnostic}
    (hread : Segment.Read others line (Segment.ofText text.toList) tokens complaints)
    (hline : line.toNat = 1 + lines)
    (hlast : line.toNat + text.toList.count '\n' < Nat.pow 2 32) :
    complaints = [] ∧ ∃ other : Listing, other.WellFormed ∧ other.tokens = tokens ∧
      Stmt.RelatedRow (Token.Raised lines names others) listing.program other.program := by
  rw [← Segment.newlinesOf_ofText] at hlast
  obtain ⟨hcomplaints, htokens⟩ := h.read.raised hread hline hlast
  obtain ⟨symbol, hknows, hspelling⟩ := hempty
  obtain ⟨symbol', hknows', hspelling'⟩ := hempty'
  have hending : Token.Raised lines names others ⟨.endOfText, symbol, none, 1⟩
      ⟨.endOfText, symbol', none, line⟩ :=
    ⟨rfl, hspelling.trans hspelling'.symm, rfl, hline, hknows, hknows'⟩
  exact ⟨hcomplaints, h.wellFormed.alike (.raised lines names others) htokens hending rfl trivial⟩

/-- A text, a newline and another text, read as one. -/
theorem Segment.Read.joined {names : Names} {first second : String} {tokens : List Token}
    {complaints : List Diagnostic}
    (h : Segment.Read names 1 (Segment.ofText (first ++ "\n" ++ second).toList) tokens complaints)
    (hkind : ∀ segment ∈ Segment.ofText first.toList, segment.kind ≠ .unterminated)
    (hlines : (first ++ "\n" ++ second).toList.count '\n' < Nat.pow 2 32 - 1) :
    ∃ line tokens' tokens'' complaints' complaints'', tokens = tokens' ++ tokens'' ∧
      complaints = complaints' ++ complaints'' ∧
      Segment.Read names 1 (Segment.ofText first.toList) tokens' complaints' ∧
      Segment.Read names line (Segment.ofText second.toList) tokens'' complaints'' ∧
      line.toNat = 1 + (first.toList.count '\n' + 1) := by
  have htext : (first ++ "\n" ++ second).toList = first.toList ++ '\n' :: second.toList := by simp
  rw [htext, List.count_append, List.count_cons_self] at hlines
  rw [htext, Segment.ofText_append hkind] at h
  obtain ⟨tokens', tokens'', complaints', complaints'', rfl, rfl, hfirst, hsecond⟩ := h.split
  have hbound : (1 : Line).toNat + Segment.newlinesOf (Segment.ofText first.toList) <
      Nat.pow 2 32 := by
    rw [Segment.newlinesOf_ofText]
    change 1 + _ < _
    omega
  have hseam := Segment.toNat_lineAfter hbound
  rw [Segment.newlinesOf_ofText] at hseam
  generalize Segment.lineAfter 1 (Segment.ofText first.toList) = line at hsecond hseam
  cases hsecond with
  | gap _ hread =>
      refine ⟨_, tokens', tokens'', complaints', complaints'', rfl, rfl, hfirst, hread, ?_⟩
      refine (Segment.toNat_add_newlines ?_).trans ?_
      · rw [hseam]
        change 1 + _ + 1 < _
        omega
      · rw [hseam]
        rfl
  | token hbecomes _ => exact absurd rfl hbecomes.means.kind_ne.1
  | unterminated hkind' | stray hkind' => contradiction

namespace Interpreter

variable {interpreter : Interpreter}

/-- What an interpreter accepts is, further down in another text, the same listing. -/
theorem raised_of_parse {other : Interpreter} (hother : other.vocabulary.Valid) {source : String}
    {program : Program} (h : (other.parse source).1 = .ok program) {names : Names}
    (hempty : ∃ symbol, names.Knows symbol ∧ symbol.spelling = "") {line : Line} {lines : Nat}
    {tokens : List Token} {complaints : List Diagnostic}
    (hread : Segment.Read names line (Segment.ofText source.toList) tokens complaints)
    (hline : line.toNat = 1 + lines)
    (hlast : line.toNat + source.toList.count '\n' < Nat.pow 2 32) :
    complaints = [] ∧ ∃ listing : Listing, listing.WellFormed ∧ listing.tokens = tokens ∧
      Stmt.RelatedRow (Token.Raised lines (other.namesAfter source) names) program
        listing.program := by
  obtain ⟨listing, hlisting, rfl⟩ := reads_of_parse hother h
  exact hlisting.raised (namesAfter_knows hother source) hempty hread hline hlast

/-- A text, a newline and another text are read as the one program behind the other. -/
theorem parse_joined (hvalid : interpreter.vocabulary.Valid) {a b : String}
    {first second : Program} (hfirst : (interpreter.parse a).1 = .ok first)
    (hsecond : (interpreter.parse b).1 = .ok second)
    (hlines : (a ++ "\n" ++ b).toList.count '\n' < Nat.pow 2 32 - 1) :
    ∃ first' second', (interpreter.parse (a ++ "\n" ++ b)).1 = .ok (first' ++ second') ∧
      ∀ other : Interpreter, other.vocabulary.Valid →
        (∀ program, (other.parse a).1 = .ok program → Stmt.RelatedRow (Token.Raised 0
          (other.namesAfter a) (interpreter.namesAfter (a ++ "\n" ++ b))) program first') ∧
        ∀ program, (other.parse b).1 = .ok program → Stmt.RelatedRow (Token.Raised
          (a.toList.count '\n' + 1) (other.namesAfter b)
          (interpreter.namesAfter (a ++ "\n" ++ b))) program second' := by
  obtain ⟨listing, hlisting, -⟩ := reads_of_parse hvalid hfirst
  obtain ⟨tokens, complaints, hread, haccepts⟩ := exists_read hvalid (a ++ "\n" ++ b)
  have hempty := namesAfter_knows hvalid (a ++ "\n" ++ b)
  obtain ⟨line, tokens', tokens'', complaints', complaints'', rfl, rfl, hread', hread'', hline⟩ :=
    hread.joined (hlisting.read.kind_ne_unterminated (by simp)) hlines
  have htext : (a ++ "\n" ++ b).toList = a.toList ++ '\n' :: b.toList := by simp
  rw [htext, List.count_append, List.count_cons_self] at hlines
  have hone : (1 : Line).toNat = 1 + 0 := rfl
  have hlast' : (1 : Line).toNat + a.toList.count '\n' < Nat.pow 2 32 := by
    change 1 + _ < _
    omega
  have hlast'' : line.toNat + b.toList.count '\n' < Nat.pow 2 32 := by omega
  obtain ⟨rfl, listing', hlisting', rfl, -⟩ :=
    raised_of_parse hvalid hfirst hempty hread' hone hlast'
  obtain ⟨rfl, listing'', hlisting'', rfl, -⟩ :=
    raised_of_parse hvalid hsecond hempty hread'' hline hlast''
  refine ⟨listing'.program, listing''.program, ?_, fun other hother => ⟨?_, ?_⟩⟩
  · have hwhole := haccepts _ (hlisting'.append hlisting'') (Clause.tokensRow_append _ _) rfl
    rw [hwhole, Listing.program, Clause.treeRow_eq_map, List.map_append, Listing.program,
      Listing.program, Clause.treeRow_eq_map, Clause.treeRow_eq_map]
  · intro program hprogram
    obtain ⟨-, again, hagain, htokens, hrelated⟩ :=
      raised_of_parse hother hprogram hempty hread' hone hlast'
    rwa [hagain.program_eq hlisting' htokens] at hrelated
  · intro program hprogram
    obtain ⟨-, again, hagain, htokens, hrelated⟩ :=
      raised_of_parse hother hprogram hempty hread'' hline hlast''
    rwa [hagain.program_eq hlisting'' htokens] at hrelated

end Interpreter

end Treewalk
