import Treewalk.Proofs.Lexing.Positions

/-!
Tokens with blanks between them. What a segment is does not depend on its neighbours once a blank
follows it, so the lexemes of a text, each on its own, are read again as they were.
-/

namespace Treewalk

namespace Segment

variable {kind : SegmentKind} {text later : List Char} {segment : Segment}

/-- Only blanks, comments and strings hold blanks. -/
theorem Form.of_blank (h : Form kind text) (hblank : ' ' ∈ text) :
    text = [' '] ∨ (∃ body, text = '/' :: '/' :: body) ∨
      ∃ body, text = '"' :: (body ++ ['"']) ∧ '"' ∉ body := by
  cases h with
  | blank => exact .inl (by simpa [eq_comm] using hblank)
  | comment => exact .inr (.inl ⟨_, rfl⟩)
  | @operator first _ hmem | @longOperator first _ hmem =>
      have hother : first ≠ ' ' := by
        rintro rfl
        simp [shortOperators, longOperators] at hmem
      simp [hother.symm] at hblank
  | string hbody => exact .inr (.inr ⟨_, rfl, hbody⟩)
  | number _ hdigits => exact absurd (hdigits _ hblank) (by decide)
  | fraction _ hdigits _ hplaces =>
      rw [List.mem_append, List.mem_cons] at hblank
      rcases hblank with hmem | hpoint | hmem
      · exact absurd (hdigits _ hmem) (by decide)
      · simp at hpoint
      · exact absurd (hplaces _ hmem) (by decide)
  | word hfirst hothers =>
      rcases List.mem_cons.mp hblank with rfl | hmem
      · exact absurd hfirst (by decide)
      · exact absurd (hothers _ hmem) (by decide)

/-- What begins with two slashes is a comment. -/
theorem Form.kind_of_slashes {body : List Char} (h : Form kind ('/' :: '/' :: body)) :
    kind = .comment := by
  rcases h.of_opening with ⟨-, hbody⟩ | ⟨long, hlong, -⟩ | ⟨-, hkind, -⟩
  · simp at hbody
  · contradiction
  · exact hkind

/-- What a blank follows is not part of anything longer. -/
theorem Form.longest_of_blank (h : Form kind text) (hkind : kind ≠ .comment)
    (later : List Char) : Longest (text ++ ' ' :: later) ⟨kind, text⟩ where
  form := h
  isPrefix := List.prefix_append _ _
  longest kind' other hother hpre := by
    rcases List.prefix_or_prefix_of_prefix hpre (List.prefix_append text _) with
      hwithin | ⟨others, rfl⟩
    · exact hwithin.length_le
    rw [List.prefix_append_right_inj] at hpre
    rcases List.prefix_cons_iff.mp hpre with rfl | ⟨others, rfl, -⟩
    · rw [List.append_nil]
    obtain ⟨first, body, rfl⟩ := List.exists_cons_of_ne_nil h.ne_nil
    rcases hother.of_blank (by simp) with hblank | ⟨inner, hcomment⟩ | ⟨inner, hstring, hinner⟩
    · simp at hblank
    · -- the text is one slash, which the blank keeps apart, or a comment itself
      rw [List.cons_append, List.cons.injEq] at hcomment
      obtain ⟨rfl, hcomment⟩ := hcomment
      cases body with
      | nil => simp at hcomment
      | cons second body =>
          rw [List.cons_append, List.cons.injEq] at hcomment
          obtain ⟨rfl, -⟩ := hcomment
          exact absurd h.kind_of_slashes hkind
    · -- the text is a string, whose last quote would be within another
      rw [List.cons_append, List.cons.injEq] at hstring
      obtain ⟨rfl, hstring⟩ := hstring
      obtain ⟨-, body, -, rfl⟩ := h.of_opening
      have hlength := congrArg List.length hstring
      simp only [List.length_append, List.length_cons, List.length_nil] at hlength
      have hwithin : body ++ ['"'] <+: inner :=
        List.prefix_of_prefix_length_le ⟨_, hstring⟩ (List.prefix_append _ _)
          (by simp only [List.length_append, List.length_cons, List.length_nil]; omega)
      exact absurd (hwithin.subset (by simp)) hinner

theorem Form.longest_self (h : Form kind text) : Longest text ⟨kind, text⟩ :=
  ⟨h, List.prefix_refl _, fun _ _ _ hpre => hpre.length_le⟩

/-- Segments with blanks between them are the segments of their text. -/
theorem ofText_intersperse {row : List Segment}
    (hrow : ∀ segment ∈ row, Form segment.kind segment.text ∧ segment.kind ≠ .comment) :
    ofText ([' '].intercalate (row.map (·.text))) = row.intersperse ⟨.blank, [' ']⟩ := by
  refine (ofText_partition _).unique ?_
  induction row with
  | nil => exact .nil
  | cons segment row ih =>
      obtain ⟨⟨hform, hkind⟩, hrest⟩ := List.forall_mem_cons.mp hrow
      cases row with
      | nil =>
          have hlast : Begins (segment.text ++ []) segment := by
            rw [List.append_nil]
            exact .longest hform.longest_self
          simpa using Partition.cons hlast .nil
      | cons second row =>
          let blank : Segment := ⟨.blank, [' ']⟩
          have hblank (later : List Char) : Begins (blank.text ++ later) blank :=
            next_begins ' ' later
          have hnext := ih hrest
          rw [List.map_cons, List.map_cons, List.intercalate_cons_cons,
            List.intersperse_cons_cons, List.append_assoc]
          rw [List.map_cons] at hnext
          refine .cons (.longest (hform.longest_of_blank hkind _)) ?_
          exact .cons (hblank _) hnext

variable {names : Names} {segments : List Segment} {line : Line} {tokens : List Token}
  {complaints : List Diagnostic}

/-- The token is that of the segment, on whichever line. -/
def Yields (names : Names) (segment : Segment) (token : Token) : Prop :=
  ∃ line, segment.Becomes names line token

/-- The tokens are those of the segments that become some. -/
theorem Read.yields (h : Read names line segments tokens complaints) :
    List.Forall₂ (Yields names) (segments.filter isToken) tokens ∧
      complaints.length = (segments.filter isMistake).length := by
  induction h with
  | nil => exact ⟨.nil, rfl⟩
  | gap hkind _ ih =>
      obtain ⟨htoken, hmistake⟩ := isToken_of_gap hkind
      rwa [List.filter_cons_of_neg (by simp [htoken]), List.filter_cons_of_neg (by simp [hmistake])]
  | token hbecomes _ ih =>
      obtain ⟨htoken, hmistake⟩ := hbecomes.means.isToken
      rw [List.filter_cons_of_pos htoken, List.filter_cons_of_neg (by simp [hmistake])]
      exact ⟨.cons ⟨_, hbecomes⟩ ih.1, ih.2⟩
  | unterminated hkind _ ih | stray hkind _ ih =>
      rw [List.filter_cons_of_neg (by simp [isToken, hkind]),
        List.filter_cons_of_pos (by simp [isMistake, hkind])]
      exact ⟨ih.1, congrArg (· + 1) ih.2⟩

theorem Formed.form_of_isToken (h : segment.Formed) (htoken : segment.isToken = true) :
    Form segment.kind segment.text ∧ segment.kind ≠ .comment := by
  rcases h with hform | hkind | ⟨character, hkind⟩
  · refine ⟨hform, fun hkind => ?_⟩
    simp [isToken, hkind] at htoken
  · simp [isToken, hkind] at htoken
  · simp [isToken, hkind] at htoken

theorem filter_intersperse {row : List Segment} (hrow : ∀ segment ∈ row, segment.isToken = true) :
    (row.intersperse ⟨.blank, [' ']⟩).filter isToken = row ∧
      (row.intersperse ⟨.blank, [' ']⟩).filter isMistake = [] := by
  have hmistake {segment : Segment} (htoken : segment.isToken = true) :
      segment.isMistake = false := by
    obtain ⟨kind, text⟩ := segment
    cases kind <;> first | contradiction | rfl
  induction row with
  | nil => exact ⟨rfl, rfl⟩
  | cons segment row ih =>
      obtain ⟨hfirst, hrest⟩ := List.forall_mem_cons.mp hrow
      cases row with
      | nil => simp [hfirst, hmistake hfirst]
      | cons second row =>
          obtain ⟨htokens, hmistakes⟩ := ih hrest
          rw [List.intersperse_cons_cons, List.filter_cons_of_pos hfirst,
            List.filter_cons_of_neg (by simp [isToken]), htokens,
            List.filter_cons_of_neg (by simp [hmistake hfirst]),
            List.filter_cons_of_neg (by simp [isMistake]), hmistakes]
          exact ⟨rfl, rfl⟩

end Segment

/-- Tokens that differ at most in their lines. -/
structure Token.SameWord (left right : Token) : Prop where
  kind_eq : left.kind = right.kind
  lexeme_eq : left.lexeme = right.lexeme
  literal_eq : left.literal = right.literal

namespace Segment

variable {names : Names} {row : List Segment} {tokens tokens' : List Token}

theorem Yields.sameWord {segment : Segment} {token token' : Token}
    (h : segment.Yields names token) (h' : segment.Yields names token')
    (hnodup : names.spellings.Nodup) : token.SameWord token' := by
  obtain ⟨line, h⟩ := h
  obtain ⟨line', h'⟩ := h'
  obtain ⟨hkind, hliteral⟩ := h.means.unique h'.means
  exact ⟨hkind, h.knows.unique h'.knows hnodup (h.spelling_eq.trans h'.spelling_eq.symm), hliteral⟩

theorem sameWords_of_yields (h : List.Forall₂ (Yields names) row tokens)
    (h' : List.Forall₂ (Yields names) row tokens') (hnodup : names.spellings.Nodup) :
    List.Forall₂ Token.SameWord tokens tokens' := by
  induction h generalizing tokens' with
  | nil =>
      cases h'
      exact .nil
  | cons hfirst _ ih =>
      cases h' with
      | cons hfirst' hrest' => exact .cons (hfirst.sameWord hfirst' hnodup) (ih hrest')

theorem spellings_of_yields (h : List.Forall₂ (Yields names) row tokens) :
    tokens.map (·.lexeme.spelling) = row.map fun segment => String.ofList segment.text := by
  induction h with
  | nil => rfl
  | cons hfirst _ ih =>
      obtain ⟨line, hfirst⟩ := hfirst
      rw [List.map_cons, List.map_cons, hfirst.spelling_eq, ih]

end Segment

/-- The lexemes of a text, without that of its end. -/
def Lexed.lexemes (lexed : Lexed) : List String :=
  (lexed.tokens.filter fun token => !token.isEnd).map (·.lexeme.spelling)

/-- The text in which there is a blank between any two lexemes of another text. -/
def Lexed.spaced (lexed : Lexed) : String :=
  " ".intercalate lexed.lexemes

namespace Scan.Within

variable {scan again : Scan} {names : Names} {tokens tokens' : List Token}
  {ending ending' : Token}

theorem isEnd_eq_true (h : scan.Within names tokens ending) : ending.isEnd = true := by
  simp [Token.isEnd, h.ends.kind_eq]

theorem lexemes_eq (h : scan.Within names tokens ending) :
    scan.lexed.lexemes = tokens.map (·.lexeme.spelling) := by
  have hplain : tokens.filter (fun token => !token.isEnd) = tokens :=
    List.filter_eq_self.mpr (by simpa using h.plain)
  rw [Lexed.lexemes, h.tokens_eq, List.filter_append, hplain,
    List.filter_cons_of_neg (by simp [h.isEnd_eq_true]), List.filter_nil, List.append_nil]

theorem spaced (h : scan.Within names tokens ending) (hagain : again.Within names tokens' ending')
    (hnodup : names.spellings.Nodup) (htext : again.text = scan.lexed.spaced) :
    again.added = [] ∧ List.Forall₂ Token.SameWord tokens tokens' := by
  have hyields := h.read.yields.1
  have htokens : ∀ segment ∈ (Segment.ofText scan.text.toList).filter Segment.isToken,
      segment.isToken = true := fun segment hmem => (List.mem_filter.mp hmem).2
  have hform : ∀ segment ∈ (Segment.ofText scan.text.toList).filter Segment.isToken,
      Segment.Form segment.kind segment.text ∧ segment.kind ≠ .comment := fun segment hmem =>
    ((Segment.ofText_partition _).formed segment (List.mem_filter.mp hmem).1).form_of_isToken
      (htokens segment hmem)
  generalize (Segment.ofText scan.text.toList).filter Segment.isToken = row at *
  have hspaced : again.text.toList = [' '].intercalate (row.map (·.text)) := by
    rw [htext, Lexed.spaced, String.toList_intercalate, h.lexemes_eq,
      Segment.spellings_of_yields hyields, List.map_map]
    simp [Function.comp_def]
  obtain ⟨hrow, hmistakes⟩ := Segment.filter_intersperse htokens
  obtain ⟨hyields', hadded⟩ := hagain.read.yields
  rw [hspaced, Segment.ofText_intersperse hform] at hyields' hadded
  rw [hrow] at hyields'
  rw [hmistakes] at hadded
  exact ⟨List.eq_nil_of_length_eq_zero hadded, Segment.sameWords_of_yields hyields hyields' hnodup⟩

end Scan.Within

namespace Vocabulary.History

variable {vocabulary : Vocabulary} {scans : List Scan}

/-- The lexemes of a text, whatever is wrong with the text, are read again with nothing to complain
about, as tokens of the same kinds, with the same symbols and literals. -/
theorem scan_spaced (h : vocabulary.History scans) {first again : Scan} (hfirst : first ∈ scans)
    (hagain : again ∈ scans) (htext : again.text = first.lexed.spaced) :
    again.lexed.diagnostics.entries = again.before.entries ∧
      ∃ tokens tokens' ending ending', first.lexed.tokens = tokens ++ [ending] ∧
        again.lexed.tokens = tokens' ++ [ending'] ∧
        ending.isEnd = true ∧ ending'.isEnd = true ∧
        (∀ token ∈ tokens, token.isEnd = false) ∧
        List.Forall₂ Token.SameWord tokens tokens' := by
  obtain ⟨tokens, ending, hwithin⟩ := h.exists_within hfirst
  obtain ⟨tokens', ending', hwithin'⟩ := h.exists_within hagain
  obtain ⟨hadded, hsame⟩ := hwithin.spaced hwithin' h.valid.nodup htext
  refine ⟨?_, tokens, tokens', ending, ending', hwithin.tokens_eq, hwithin'.tokens_eq,
    hwithin.isEnd_eq_true, hwithin'.isEnd_eq_true, hwithin.plain, hsame⟩
  rw [hwithin'.entries_eq, hadded, List.append_nil]

/-- Points and slashes, a string with a newline in it, and a stray character. -/
theorem scan_spaced_points :
    let first : Scan := ⟨"1.2.3 /=/\"a//\nb\"é", {}, .ofText "1.2.3 /=/\"a//\nb\"é" (.new 0) {}⟩
    let again : Scan := ⟨"1.2 . 3 / = / \"a//\nb\"", first.lexed.diagnostics,
      .ofText "1.2 . 3 / = / \"a//\nb\"" first.lexed.vocabulary first.lexed.diagnostics⟩
    again.text = first.lexed.spaced ∧
      again.lexed.diagnostics.entries = first.lexed.diagnostics.entries ∧
      ∃ tokens tokens' ending ending', first.lexed.tokens = tokens ++ [ending] ∧
        again.lexed.tokens = tokens' ++ [ending'] ∧ ending'.isEnd = true ∧
        List.Forall₂ Token.SameWord tokens tokens' := by
  intro first again
  have hhistory : History again.lexed.vocabulary [again, first] := .scan _ _ (.scan _ _ (.new 0))
  have hfirst : first ∈ [again, first] := by simp
  have hagain : again ∈ [again, first] := by simp
  have htext : again.text = first.lexed.spaced := by decide +kernel
  obtain ⟨hentries, tokens, tokens', ending, ending', htokens, htokens', -, hend', -, hsame⟩ :=
    hhistory.scan_spaced hfirst hagain htext
  exact ⟨htext, hentries, tokens, tokens', ending, ending', htokens, htokens', hend', hsame⟩

end Vocabulary.History

end Treewalk
