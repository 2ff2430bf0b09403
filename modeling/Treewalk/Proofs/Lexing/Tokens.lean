import Treewalk.Proofs.Lexing.Partition
import Treewalk.Proofs.Lexing.Twins

/-!
What is read from a text, told by the partition of the text into segments.
-/

namespace Treewalk

/-- The kind and the literal of the token that a segment becomes. -/
inductive Segment.Means : Segment → TokenKind → Option Literal → Prop
  | operator {kind : TokenKind} {text : List Char} : Means ⟨.operator kind, text⟩ kind none
  | string {body : List Char} : Means ⟨.string, '"' :: (body ++ ['"'])⟩ .string
      (some (.string (String.ofList body)))
  | number {text : List Char} {numeral : Numeral} : Numeral.read? text = some numeral →
      Means ⟨.number, text⟩ .number (some (.number numeral.number))
  | keyword {text : List Char} {kind : TokenKind} :
      (String.ofList text, kind) ∈ keywordSpellings → Means ⟨.word, text⟩ kind none
  | identifier {text : List Char} : (∀ kind, (String.ofList text, kind) ∉ keywordSpellings) →
      Means ⟨.word, text⟩ .identifier none

structure Segment.Becomes (names : Names) (segment : Segment) (line : Line) (token : Token) :
    Prop where
  means : segment.Means token.kind token.literal
  spelling_eq : token.lexeme.spelling = String.ofList segment.text
  knows : names.Knows token.lexeme
  line_eq : token.line = line

/-- The tokens and the complaints of a row of segments that begins on a line. -/
inductive Segment.Read (names : Names) :
    Line → List Segment → List Token → List Diagnostic → Prop
  | nil {line : Line} : Read names line [] [] []
  | gap {line : Line} {segment : Segment} {segments : List Segment} {tokens : List Token}
      {complaints : List Diagnostic} : segment.kind = .blank ∨ segment.kind = .comment →
      Read names (line + segment.newlines) segments tokens complaints →
      Read names line (segment :: segments) tokens complaints
  | token {line : Line} {segment : Segment} {segments : List Segment} {token : Token}
      {tokens : List Token} {complaints : List Diagnostic} :
      segment.Becomes names (line + segment.newlines) token →
      Read names (line + segment.newlines) segments tokens complaints →
      Read names line (segment :: segments) (token :: tokens) complaints
  | unterminated {line : Line} {segment : Segment} {segments : List Segment}
      {tokens : List Token} {complaints : List Diagnostic} : segment.kind = .unterminated →
      Read names (line + segment.newlines) segments tokens complaints →
      Read names line (segment :: segments) tokens
        (⟨line + segment.newlines, "", .lexical .unterminatedString⟩ :: complaints)
  | stray {line : Line} {segment : Segment} {segments : List Segment} {tokens : List Token}
      {complaints : List Diagnostic} {character : Char} : segment.kind = .stray character →
      Read names (line + segment.newlines) segments tokens complaints →
      Read names line (segment :: segments) tokens
        (⟨line + segment.newlines, "", .lexical (.unexpectedCharacter character)⟩ :: complaints)

structure Token.Ends (names : Names) (line : Line) (token : Token) : Prop where
  kind_eq : token.kind = .endOfText
  spelling_eq : token.lexeme.spelling = ""
  knows : names.Knows token.lexeme
  literal_eq : token.literal = none
  line_eq : token.line = line

variable {names later : Names} {segment : Segment} {segments : List Segment} {line : Line}
  {tokens : List Token} {complaints : List Diagnostic}

theorem Segment.Becomes.mono {token : Token} (h : segment.Becomes names line token)
    (hextends : names.Extends later) : segment.Becomes later line token :=
  { h with knows := h.knows.mono hextends }

theorem Segment.Read.mono (h : Segment.Read names line segments tokens complaints)
    (hextends : names.Extends later) : Segment.Read later line segments tokens complaints := by
  induction h with
  | nil => exact .nil
  | gap hkind _ ih => exact .gap hkind ih
  | token hbecomes _ ih => exact .token (hbecomes.mono hextends) ih
  | unterminated hkind _ ih => exact .unterminated hkind ih
  | stray hkind _ ih => exact .stray hkind ih

/-! Segments of a partition have the form of their kind. -/

/-- A segment has the form of its kind, or it is one of the kinds without a form. -/
def Segment.Formed (segment : Segment) : Prop :=
  Segment.Form segment.kind segment.text ∨ segment.kind = .unterminated ∨
    ∃ character, segment.kind = .stray character

theorem Segment.Begins.formed {text : List Char} (h : Segment.Begins text segment) :
    segment.Formed := by
  cases h with
  | longest hlongest => exact .inl hlongest.form
  | unterminated => exact .inr (.inl rfl)
  | stray => exact .inr (.inr ⟨_, rfl⟩)

theorem Segment.Partition.formed {text : List Char} (h : Segment.Partition text segments) :
    ∀ segment ∈ segments, segment.Formed := by
  induction h with
  | nil => simp
  | cons hbegins _ ih =>
      intro segment hsegment
      rcases List.mem_cons.mp hsegment with rfl | hsegment
      · exact hbegins.formed
      · exact ih segment hsegment

theorem Segment.Form.read?_isSome {text : List Char} (h : Segment.Form .number text) :
    ∃ numeral, Numeral.read? text = some numeral := by
  generalize hkind : SegmentKind.number = kind at h
  cases h with
  | number hne hdigits =>
      have htake := List.takeWhile_eq_self_iff.mpr hdigits
      have hdrop := List.dropWhile_eq_nil_iff.mpr hdigits
      simp [Numeral.read?, htake, hdrop, hne]
  | fraction hne hdigits hplaces hplaces' =>
      simp only [Numeral.read?, List.takeWhile_append_of_pos hdigits,
        List.dropWhile_append_of_pos hdigits]
      simpa [Char.isDigit, hne, hplaces] using hplaces'
  | blank | comment | operator | longOperator | string | word => cases hkind

theorem Vocabulary.keywordKind?_eq_some_iff {spelling : String} {kind : TokenKind} :
    keywordKind? spelling = some kind ↔ (spelling, kind) ∈ keywordSpellings := by
  constructor
  · intro h
    obtain ⟨⟨spelling', kind'⟩, hfind, rfl⟩ := Option.map_eq_some_iff.mp h
    obtain rfl : spelling' = spelling := by simpa using List.find?_some hfind
    exact List.mem_of_find?_eq_some hfind
  · intro h
    have hreserved : ∀ word ∈ keywordSpellings, keywordKind? word.1 = some word.2 := by decide
    exact hreserved _ h

theorem Vocabulary.Valid.means_word {vocabulary : Vocabulary} (h : vocabulary.Valid)
    (text : List Char) :
    Segment.Means ⟨.word, text⟩
      ((vocabulary.keyword? (vocabulary.symbol (String.ofList text)).1).getD .identifier) none := by
  have hkeyword := (h.symbol _).keyword?_eq (vocabulary.symbol_knows (String.ofList text))
  rw [symbol_spelling] at hkeyword
  change vocabulary.keyword? _ = _ at hkeyword
  rw [hkeyword]
  cases hkind : keywordKind? (String.ofList text) with
  | some kind => exact .keyword (keywordKind?_eq_some_iff.mp hkind)
  | none =>
      refine .identifier fun kind hmem => ?_
      rw [← keywordKind?_eq_some_iff, hkind] at hmem
      contradiction

/-! Reading follows the segments one by one. -/

def Segment.lineAfter (line : Line) (segments : List Segment) : Line :=
  segments.foldl (fun line segment => line + segment.newlines) line

theorem Segment.Read.append {segments' : List Segment} {tokens' : List Token}
    {complaints' : List Diagnostic} (h : Segment.Read names line segments tokens complaints)
    (hother : Segment.Read names (Segment.lineAfter line segments) segments' tokens'
      complaints') :
    Segment.Read names line (segments ++ segments') (tokens ++ tokens')
      (complaints ++ complaints') := by
  induction h with
  | nil => exact hother
  | gap hkind _ ih => exact .gap hkind (ih hother)
  | token hbecomes _ ih => exact .token hbecomes (ih hother)
  | unterminated hkind _ ih => exact .unterminated hkind (ih hother)
  | stray hkind _ ih => exact .stray hkind (ih hother)

namespace Lexing

/-- What one reading state has read more than another. -/
structure Reads (lexing : Lexing) (segments : List Segment) (later : Lexing) : Prop where
  valid : later.vocabulary.Valid
  names_extends : lexing.vocabulary.names.Extends later.vocabulary.names
  line_eq : later.line = Segment.lineAfter lexing.line segments
  read : ∃ tokens complaints,
    Segment.Read later.vocabulary.names lexing.line segments tokens complaints ∧
      later.tokens = tokens.reverse ++ lexing.tokens ∧
      later.diagnostics.entries = lexing.diagnostics.entries ++ complaints

variable {lexing between later : Lexing}

theorem Reads.refl (hvalid : lexing.vocabulary.Valid) : lexing.Reads [] lexing :=
  ⟨hvalid, .refl _, rfl, [], [], .nil, rfl, by simp⟩

theorem Reads.trans {segments' : List Segment} (h : lexing.Reads segments between)
    (hnext : between.Reads segments' later) : lexing.Reads (segments ++ segments') later := by
  obtain ⟨tokens, complaints, hread, htokens, hcomplaints⟩ := h.read
  obtain ⟨tokens', complaints', hread', htokens', hcomplaints'⟩ := hnext.read
  refine ⟨hnext.valid, h.names_extends.trans hnext.names_extends, ?_, tokens ++ tokens',
    complaints ++ complaints', ?_, ?_, ?_⟩
  · rw [hnext.line_eq, h.line_eq, Segment.lineAfter, Segment.lineAfter, Segment.lineAfter,
      List.foldl_append]
  · rw [h.line_eq] at hread'
    exact (hread.mono hnext.names_extends).append hread'
  · rw [htokens', htokens, List.reverse_append, List.append_assoc]
  · rw [hcomplaints', hcomplaints, List.append_assoc]

theorem Reads.push (hvalid : lexing.vocabulary.Valid) (segment : Segment)
    (literal : Option Literal) (kind : Symbol → TokenKind)
    (hmeans : segment.Means (kind (lexing.vocabulary.symbol (String.ofList segment.text)).1)
      literal) :
    lexing.Reads [segment]
      ({ lexing with line := lexing.line + segment.newlines }.push segment.text literal kind) where
  valid := hvalid.symbol _
  names_extends := lexing.vocabulary.symbol_extends _
  line_eq := rfl
  read := by
    have hspelling := lexing.vocabulary.symbol_spelling (String.ofList segment.text)
    have hknows := lexing.vocabulary.symbol_knows (String.ofList segment.text)
    generalize hsymbol : (lexing.vocabulary.symbol (String.ofList segment.text)).1 = symbol at *
    refine ⟨[⟨kind symbol, symbol, literal, lexing.line + segment.newlines⟩], [],
      .token ⟨hmeans, hspelling, hknows, rfl⟩ .nil, ?_, ?_⟩
    · rw [← hsymbol]
      rfl
    · simp [Lexing.push]

theorem Reads.gap (hvalid : lexing.vocabulary.Valid)
    (hkind : segment.kind = .blank ∨ segment.kind = .comment) :
    lexing.Reads [segment] { lexing with line := lexing.line + segment.newlines } :=
  ⟨hvalid, .refl _, rfl, [], [], .gap hkind .nil, rfl, by simp⟩

theorem read_reads (hvalid : lexing.vocabulary.Valid) (hformed : segment.Formed) :
    lexing.Reads [segment] (lexing.read segment) := by
  obtain ⟨kind, text⟩ := segment
  cases kind with
  | blank => exact .gap hvalid (.inl rfl)
  | comment => exact .gap hvalid (.inr rfl)
  | operator kind => exact Reads.push hvalid _ none (fun _ => kind) .operator
  | string =>
      have hform : Segment.Form .string text := by simpa [Segment.Formed] using hformed
      generalize hkind : SegmentKind.string = kind at hform
      cases hform with
      | @string body hquote =>
          have hbody : ('"' :: (body ++ ['"'])).tail.dropLast = body := by simp
          refine Reads.push hvalid _ _ (fun _ => .string) ?_
          rw [hbody]
          exact .string
      | blank | comment | operator | longOperator | number | fraction | word => cases hkind
  | number =>
      have hform : Segment.Form .number text := by simpa [Segment.Formed] using hformed
      obtain ⟨numeral, hnumeral⟩ := hform.read?_isSome
      unfold Lexing.read
      simp only [hnumeral]
      exact Reads.push hvalid _ _ (fun _ => .number) (.number hnumeral)
  | word =>
      exact Reads.push hvalid _ none
        (fun symbol => (lexing.vocabulary.keyword? symbol).getD .identifier)
        (hvalid.means_word text)
  | unterminated =>
      exact ⟨hvalid, .refl _, rfl, [], [_], .unterminated rfl .nil, rfl, rfl⟩
  | stray character =>
      exact ⟨hvalid, .refl _, rfl, [], [_], .stray rfl .nil, rfl, rfl⟩

theorem foldl_reads (segments : List Segment) (hvalid : lexing.vocabulary.Valid)
    (hformed : ∀ segment ∈ segments, segment.Formed) :
    lexing.Reads segments (segments.foldl Lexing.read lexing) := by
  induction segments generalizing lexing with
  | nil => exact .refl hvalid
  | cons segment segments ih =>
      have hfirst := read_reads hvalid (hformed segment List.mem_cons_self)
      exact hfirst.trans (ih hfirst.valid fun segment hsegment =>
        hformed segment (List.mem_cons_of_mem _ hsegment))

end Lexing

/-! Only the end of a text is read as the end. -/

theorem Segment.Means.ne_end {kind : TokenKind} {literal : Option Literal}
    (h : segment.Means kind literal) (hformed : segment.Formed) : kind ≠ .endOfText := by
  cases h with
  | @operator kind text =>
      have hform : Segment.Form (.operator kind) text := by simpa [Segment.Formed] using hformed
      have hnone : ∀ operator ∈ Segment.shortOperators ++ Segment.longOperators,
          operator.2 ≠ .endOfText := by decide
      rw [List.forall_mem_append] at hnone
      cases hform with
      | operator hmem => exact hnone.1 _ hmem
      | longOperator hmem => exact hnone.2 _ hmem
  | string | number | identifier => simp
  | keyword hmem =>
      have hnone : ∀ word ∈ keywordSpellings, word.2 ≠ .endOfText := by decide
      exact hnone _ hmem

theorem Segment.Read.isEnd_eq_false (h : Segment.Read names line segments tokens complaints)
    (hformed : ∀ segment ∈ segments, segment.Formed) :
    ∀ token ∈ tokens, token.isEnd = false := by
  induction h with
  | nil => simp
  | gap _ _ ih | unterminated _ _ ih | stray _ _ ih =>
      exact ih fun segment hsegment => hformed segment (List.mem_cons_of_mem _ hsegment)
  | token hbecomes _ ih =>
      intro token htoken
      rcases List.mem_cons.mp htoken with rfl | htoken
      · simpa [Token.isEnd] using hbecomes.means.ne_end (hformed _ List.mem_cons_self)
      · exact ih (fun segment hsegment => hformed segment (List.mem_cons_of_mem _ hsegment)) _
          htoken

namespace Lexed

/-- What a text is read as, told by its segments. -/
def Reads (lexed : Lexed) (segments : List Segment) (diagnostics : Diagnostics) : Prop :=
  ∃ tokens ending complaints,
    Segment.Read lexed.vocabulary.names 1 segments tokens complaints ∧
      (∀ token ∈ tokens, token.isEnd = false) ∧
      ending.Ends lexed.vocabulary.names (Segment.lineAfter 1 segments) ∧
      lexed.tokens = tokens ++ [ending] ∧
      lexed.diagnostics.entries = diagnostics.entries ++ complaints

theorem ofText_reads (text : String) {vocabulary : Vocabulary} (h : vocabulary.Valid)
    (diagnostics : Diagnostics) :
    (ofText text vocabulary diagnostics).Reads (Segment.ofText text.toList) diagnostics := by
  have hformed := (Segment.ofText_partition text.toList).formed
  have hstart : (Lexing.start vocabulary diagnostics).vocabulary.Valid := h
  have hreads := Lexing.foldl_reads _ hstart hformed
  obtain ⟨tokens, complaints, hread, htokens, hcomplaints⟩ := hreads.read
  unfold ofText
  generalize (Segment.ofText text.toList).foldl Lexing.read (Lexing.start vocabulary diagnostics) =
    last at *
  have hending : Token.Ends (last.vocabulary.symbol "").2.names
      (Segment.lineAfter 1 (Segment.ofText text.toList))
      ⟨.endOfText, (last.vocabulary.symbol "").1, none, last.line⟩ :=
    ⟨rfl, last.vocabulary.symbol_spelling "", last.vocabulary.symbol_knows "", rfl, hreads.line_eq⟩
  refine ⟨tokens, _, complaints, hread.mono (last.vocabulary.symbol_extends ""),
    hread.isEnd_eq_false hformed, hending, ?_, hcomplaints⟩
  have hall : last.tokens.reverse = tokens := by
    rw [htokens, List.reverse_append, List.reverse_reverse]
    rfl
  rw [← hall]
  exact List.reverse_cons

/-- Reading a text follows its only partition into longest segments. -/
theorem ofText_reads_partition (text : String) {vocabulary : Vocabulary} (h : vocabulary.Valid)
    (diagnostics : Diagnostics) :
    ∃ segments, Segment.Partition text.toList segments ∧
      (∀ others, Segment.Partition text.toList others → others = segments) ∧
      segments.flatMap (·.text) = text.toList ∧
      (ofText text vocabulary diagnostics).Reads segments diagnostics := by
  have hpartition := Segment.ofText_partition text.toList
  exact ⟨_, hpartition, fun others hothers => hothers.unique hpartition, hpartition.append_eq,
    ofText_reads text h diagnostics⟩

theorem ofText_reads_partition_points :
    (Vocabulary.new 0).Valid ∧
      ∃ segments, Segment.Partition "1.2.3é==\"".toList segments ∧
        (∀ others, Segment.Partition "1.2.3é==\"".toList others → others = segments) ∧
        segments.flatMap (·.text) = "1.2.3é==\"".toList ∧
        (ofText "1.2.3é==\"" (.new 0) {}).Reads segments {} :=
  ⟨Vocabulary.new_valid 0, ofText_reads_partition "1.2.3é==\"" (Vocabulary.new_valid 0) {}⟩

end Lexed

end Treewalk
