import Treewalk.Proofs.Lexing.Seam

/-!
Where segments stand in a text, and the lines of what they become. A token is on the line on which
it ends, a stray character on its own line and an open string on the last line of the text. The
lines are counted by the newlines before, so they never go back, and the counter has room for them.
-/

namespace Treewalk

namespace Segment

/-- Segments of these kinds become tokens. -/
def isToken (segment : Segment) : Bool :=
  match segment.kind with
  | .operator _ | .string | .number | .word => true
  | _ => false

/-- Segments of these kinds are complained about. -/
def isMistake (segment : Segment) : Bool :=
  match segment.kind with
  | .unterminated | .stray _ => true
  | _ => false

/-- A segment in a text, with all that stands before it. -/
structure Occurrence where
  before : List Char
  segment : Segment

/-- The segments of a row that continues a text. -/
def occurrences (before : List Char) : List Segment → List Occurrence
  | [] => []
  | segment :: rest => ⟨before, segment⟩ :: occurrences (before ++ segment.text) rest

namespace Occurrence

/-- The text up to the end of the segment. -/
def upTo (occurrence : Occurrence) : List Char :=
  occurrence.before ++ occurrence.segment.text

/-- The token is that of the segment, on the line on which the segment ends. -/
structure Becomes (occurrence : Occurrence) (token : Token) : Prop where
  means : occurrence.segment.Means token.kind token.literal
  spelling_eq : token.lexeme.spelling = String.ofList occurrence.segment.text
  line_eq : token.line.toNat = 1 + occurrence.upTo.count '\n'

/-- What is recorded of a segment of a text that is no token. -/
inductive Causes (text : List Char) (occurrence : Occurrence) : Diagnostic → Prop
  | unterminated {line : Line} : occurrence.segment.kind = .unterminated →
      line.toNat = 1 + text.count '\n' →
      Causes text occurrence ⟨line, "", .lexical .unterminatedString⟩
  | stray {line : Line} {character : Char} :
      occurrence.segment = ⟨.stray character, [character]⟩ →
      line.toNat = 1 + occurrence.before.count '\n' →
      Causes text occurrence ⟨line, "", .lexical (.unexpectedCharacter character)⟩

end Occurrence

variable {names : Names} {segment : Segment} {segments : List Segment} {line : Line}
  {before text : List Char} {tokens : List Token} {complaints : List Diagnostic}

theorem upTo_isPrefix (segments : List Segment) (before : List Char) :
    ∀ occurrence ∈ occurrences before segments,
      occurrence.upTo <+: before ++ segments.flatMap (·.text) := by
  induction segments generalizing before with
  | nil => simp [occurrences]
  | cons segment segments ih =>
      rw [occurrences, List.forall_mem_cons, List.flatMap_cons, ← List.append_assoc]
      exact ⟨List.prefix_append _ _, ih _⟩

theorem Begins.text_eq_of_unterminated (h : Begins text segment)
    (hkind : segment.kind = .unterminated) : segment.text = text := by
  cases h with
  | longest hlongest =>
      have hform := hlongest.form
      rw [hkind] at hform
      contradiction
  | unterminated => rfl
  | stray => contradiction

theorem Begins.eq_of_stray {character : Char} (h : Begins text segment)
    (hkind : segment.kind = .stray character) :
    segment = ⟨.stray character, [character]⟩ ∧ character ≠ '\n' := by
  cases h with
  | longest hlongest =>
      have hform := hlongest.form
      rw [hkind] at hform
      contradiction
  | unterminated => contradiction
  | @stray first rest htext _ hnone =>
      cases hkind
      refine ⟨rfl, ?_⟩
      rintro rfl
      exact hnone .blank ['\n'] (.blank (by simp)) ⟨rest, htext.symm⟩

theorem Means.isToken {kind : TokenKind} {literal : Option Literal}
    (h : segment.Means kind literal) : segment.isToken = true ∧ segment.isMistake = false := by
  cases h <;> exact ⟨rfl, rfl⟩

theorem isToken_of_gap (h : segment.kind = .blank ∨ segment.kind = .comment) :
    segment.isToken = false ∧ segment.isMistake = false := by
  rcases h with h | h <;> simp [isToken, isMistake, h]

/-- What is read of the rest of a text stands where its segments stand. -/
theorem Read.occur (h : Read names line segments tokens complaints)
    (hpartition : Partition text segments) (hline : line.toNat = 1 + before.count '\n')
    (hlast : line.toNat + text.count '\n' < Nat.pow 2 32) :
    List.Forall₂ Occurrence.Becomes
        ((occurrences before segments).filter (·.segment.isToken)) tokens ∧
      List.Forall₂ (Occurrence.Causes (before ++ text))
        ((occurrences before segments).filter (·.segment.isMistake)) complaints := by
  have hnext {line : Line} {segment : Segment} {before rest : List Char}
      (hline : line.toNat = 1 + before.count '\n')
      (hlast : line.toNat + (segment.text ++ rest).count '\n' < Nat.pow 2 32) :
      (line + segment.newlines).toNat = 1 + (before ++ segment.text).count '\n' ∧
        (line + segment.newlines).toNat + rest.count '\n' < Nat.pow 2 32 := by
    rw [List.count_append] at hlast ⊢
    rw [toNat_add_newlines (by omega)]
    omega
  induction h generalizing before text with
  | nil => exact ⟨.nil, .nil⟩
  | @gap line segment segments _ _ hkind _ ih =>
      cases hpartition with
      | @cons _ rest _ _ hrest =>
          obtain ⟨hafter, hbound⟩ := hnext hline hlast
          have hgap := isToken_of_gap hkind
          rw [occurrences, List.filter_cons_of_neg (by simp [hgap.1]),
            List.filter_cons_of_neg (by simp [hgap.2]), ← List.append_assoc]
          exact ih hrest hafter hbound
  | @token line segment segments token _ _ hbecomes _ ih =>
      cases hpartition with
      | @cons _ rest _ _ hrest =>
          obtain ⟨hafter, hbound⟩ := hnext hline hlast
          have htoken := hbecomes.means.isToken
          have hfirst : Occurrence.Becomes ⟨before, segment⟩ token :=
            ⟨hbecomes.means, hbecomes.spelling_eq, by rw [hbecomes.line_eq]; exact hafter⟩
          rw [occurrences, List.filter_cons_of_pos (by simp [htoken.1]),
            List.filter_cons_of_neg (by simp [htoken.2]), ← List.append_assoc]
          obtain ⟨htokens, hcomplaints⟩ := ih hrest hafter hbound
          exact ⟨.cons hfirst htokens, hcomplaints⟩
  | @unterminated line segment segments _ _ hkind _ ih =>
      cases hpartition with
      | @cons _ rest _ hbegins hrest =>
          obtain ⟨hafter, hbound⟩ := hnext hline hlast
          have hwhole := hbegins.text_eq_of_unterminated hkind
          have hcause : Occurrence.Causes (before ++ (segment.text ++ rest)) ⟨before, segment⟩
              ⟨line + segment.newlines, "", .lexical .unterminatedString⟩ :=
            .unterminated hkind (by rw [← hwhole]; exact hafter)
          rw [occurrences, List.filter_cons_of_neg (by simp [isToken, hkind]),
            List.filter_cons_of_pos (by simp [isMistake, hkind])]
          obtain ⟨htokens, hcomplaints⟩ := ih hrest hafter hbound
          rw [List.append_assoc] at hcomplaints
          exact ⟨htokens, .cons hcause hcomplaints⟩
  | @stray line segment segments _ _ character hkind _ ih =>
      cases hpartition with
      | @cons _ rest _ hbegins hrest =>
          obtain ⟨hafter, hbound⟩ := hnext hline hlast
          obtain ⟨hsegment, hother⟩ := hbegins.eq_of_stray hkind
          have hsame : (before ++ segment.text).count '\n' = before.count '\n' := by
            simp [hsegment, hother]
          have hcause : Occurrence.Causes (before ++ (segment.text ++ rest)) ⟨before, segment⟩
              ⟨line + segment.newlines, "", .lexical (.unexpectedCharacter character)⟩ :=
            .stray hsegment (hafter.trans (congrArg (1 + ·) hsame))
          rw [occurrences, List.filter_cons_of_neg (by simp [isToken, hkind]),
            List.filter_cons_of_pos (by simp [isMistake, hkind])]
          obtain ⟨htokens, hcomplaints⟩ := ih hrest hafter hbound
          rw [List.append_assoc] at hcomplaints
          exact ⟨htokens, .cons hcause hcomplaints⟩

/-- The lines of a reading never go back. -/
theorem Read.lines_sorted (h : Read names line segments tokens complaints)
    (hlast : line.toNat + newlinesOf segments < Nat.pow 2 32) :
    ((∀ token ∈ tokens, line ≤ token.line) ∧ tokens.Pairwise (·.line ≤ ·.line)) ∧
      (∀ complaint ∈ complaints, line ≤ complaint.line) ∧
        complaints.Pairwise (·.line ≤ ·.line) := by
  have hnext {line : Line} {segment : Segment} {segments : List Segment}
      (hlast : line.toNat + newlinesOf (segment :: segments) < Nat.pow 2 32) :
      line ≤ line + segment.newlines ∧
        (line + segment.newlines).toNat + newlinesOf segments < Nat.pow 2 32 := by
    have hrest := toNat_add_newlinesOf hlast
    rw [newlinesOf_cons] at hlast
    rw [UInt32.le_iff_toNat_le, toNat_add_newlines (by omega)]
    rw [toNat_add_newlines (by omega), newlinesOf_cons] at hrest
    omega
  induction h with
  | nil => simp
  | gap _ _ ih =>
      obtain ⟨hle, hbound⟩ := hnext hlast
      obtain ⟨⟨htokens, hsorted⟩, hcomplaints, hsorted'⟩ := ih hbound
      exact ⟨⟨fun token hmem => UInt32.le_trans hle (htokens token hmem), hsorted⟩,
        fun complaint hmem => UInt32.le_trans hle (hcomplaints complaint hmem), hsorted'⟩
  | token hbecomes _ ih =>
      obtain ⟨hle, hbound⟩ := hnext hlast
      obtain ⟨⟨htokens, hsorted⟩, hcomplaints, hsorted'⟩ := ih hbound
      rw [← hbecomes.line_eq] at hle htokens hcomplaints
      refine ⟨⟨List.forall_mem_cons.mpr ⟨hle, fun token hmem => ?_⟩, .cons htokens hsorted⟩,
        fun complaint hmem => UInt32.le_trans hle (hcomplaints complaint hmem), hsorted'⟩
      exact UInt32.le_trans hle (htokens token hmem)
  | unterminated _ _ ih | stray _ _ ih =>
      obtain ⟨hle, hbound⟩ := hnext hlast
      obtain ⟨⟨htokens, hsorted⟩, hcomplaints, hsorted'⟩ := ih hbound
      refine ⟨⟨fun token hmem => UInt32.le_trans hle (htokens token hmem), hsorted⟩,
        List.forall_mem_cons.mpr ⟨hle, fun complaint hmem => ?_⟩, .cons hcomplaints hsorted'⟩
      exact UInt32.le_trans hle (hcomplaints complaint hmem)

end Segment

/-- The lines of all that is read of a text, told by the places of its segments. -/
structure Lexed.OnLines (lexed : Lexed) (text : List Char) (segments : List Segment)
    (tokens : List Token) (ending : Token) (complaints : List Diagnostic) : Prop where
  tokens_eq : lexed.tokens = tokens ++ [ending]
  becomes : List.Forall₂ Segment.Occurrence.Becomes
    ((Segment.occurrences [] segments).filter (·.segment.isToken)) tokens
  ending_isEnd : ending.isEnd = true
  ending_line : ending.line.toNat = 1 + text.count '\n'
  causes : List.Forall₂ (Segment.Occurrence.Causes text)
    ((Segment.occurrences [] segments).filter (·.segment.isMistake)) complaints
  tokens_sorted : lexed.tokens.Pairwise (·.line ≤ ·.line)
  complaints_sorted : complaints.Pairwise (·.line ≤ ·.line)

namespace Lexed

variable {vocabulary : Vocabulary}

/-- While the lines are not too many for their bits, every token and every complaint is on the line
that the newlines before it make. The counter has the number of the newlines read at all times. -/
theorem ofText_onLines (text : String) (h : vocabulary.Valid) (diagnostics : Diagnostics)
    (hlines : text.toList.count '\n' < Nat.pow 2 32 - 1) :
    ∃ segments tokens ending complaints,
      Segment.Partition text.toList segments ∧
      (∀ others, Segment.Partition text.toList others → others = segments) ∧
      (∀ occurrence ∈ Segment.occurrences [] segments, occurrence.upTo <+: text.toList) ∧
      (ofText text vocabulary diagnostics).OnLines text.toList segments tokens ending complaints ∧
      (ofText text vocabulary diagnostics).diagnostics.entries =
        diagnostics.entries ++ complaints ∧
      ∀ read rest, segments = read ++ rest →
        (read.foldl Lexing.read (Lexing.start vocabulary diagnostics)).line.toNat =
          1 + Segment.newlinesOf read := by
  have hpartition := Segment.ofText_partition text.toList
  have hnewlines := Segment.newlinesOf_ofText text.toList
  have hlast : (1 : Line).toNat + text.toList.count '\n' < Nat.pow 2 32 := by
    change 1 + _ < _
    omega
  obtain ⟨tokens, ending, complaints, hread, -, hends, htokens, hentries⟩ :=
    ofText_reads text h diagnostics
  have hfirst : (1 : Line).toNat = 1 + ([] : List Char).count '\n' := rfl
  obtain ⟨hbecomes, hcauses⟩ := hread.occur hpartition hfirst hlast
  rw [← hnewlines] at hlast
  obtain ⟨⟨-, hsorted⟩, -, hsorted'⟩ := hread.lines_sorted hlast
  have hbefore := (hread.toNat_line_le hlast).1
  have hending : ending.line.toNat = 1 + text.toList.count '\n' := by
    rw [hends.line_eq, Segment.toNat_lineAfter hlast, hnewlines]
    rfl
  refine ⟨_, tokens, ending, complaints, hpartition, fun others hothers =>
    hothers.unique hpartition, ?_, ?_, hentries, ?_⟩
  · have hprefix := Segment.upTo_isPrefix (Segment.ofText text.toList) []
    rwa [hpartition.append_eq] at hprefix
  · refine ⟨htokens, hbecomes, by simp [Token.isEnd, hends.kind_eq], hending, hcauses, ?_,
      hsorted'⟩
    rw [htokens, List.pairwise_append]
    refine ⟨hsorted, List.pairwise_singleton _ _, fun token hmem last hlast => ?_⟩
    rw [List.mem_singleton] at hlast
    rw [hlast, UInt32.le_iff_toNat_le, hending, ← hnewlines]
    exact hbefore token hmem
  · intro read rest hsegments
    have hformed : ∀ segment ∈ read, segment.Formed := fun segment hmem =>
      hpartition.formed segment (hsegments ▸ List.mem_append_left rest hmem)
    have hstart : (Lexing.start vocabulary diagnostics).vocabulary.Valid := h
    rw [(Lexing.foldl_reads read hstart hformed).line_eq]
    refine Segment.toNat_lineAfter (lt_of_le_of_lt (Nat.add_le_add_left ?_ _) hlast)
    rw [hsegments, Segment.newlinesOf, Segment.newlinesOf, List.flatMap_append, List.count_append]
    exact Nat.le_add_right _ _

/-- A string over two lines, a stray character and a string without an end. -/
theorem ofText_onLines_strings :
    (Vocabulary.new 0).Valid ∧ "\"a\nb\" é\n\"c\n".toList.count '\n' < Nat.pow 2 32 - 1 ∧
      ∃ segments tokens ending complaints,
        Segment.Partition "\"a\nb\" é\n\"c\n".toList segments ∧
        (ofText "\"a\nb\" é\n\"c\n" (.new 0) {}).OnLines "\"a\nb\" é\n\"c\n".toList segments
          tokens ending complaints := by
  have hlines : "\"a\nb\" é\n\"c\n".toList.count '\n' < Nat.pow 2 32 - 1 := by decide
  obtain ⟨segments, tokens, ending, complaints, hpartition, -, -, hlined, -⟩ :=
    ofText_onLines "\"a\nb\" é\n\"c\n" (Vocabulary.new_valid 0) {} hlines
  exact ⟨Vocabulary.new_valid 0, hlines, segments, tokens, ending, complaints, hpartition, hlined⟩

end Lexed

end Treewalk
