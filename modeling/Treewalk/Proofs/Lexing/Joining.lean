import Treewalk.Proofs.Lexing.Tokens

/-!
A newline between two texts keeps them apart: unless the first ends within a string, the segments
of the whole are those of the one, the newline and those of the other, and the tokens of the second
are the same as without the first, on lines further down.
-/

namespace Treewalk

namespace Segment

variable {kind : SegmentKind} {text rest later : List Char} {segment : Segment}

/-- Only blanks and strings hold newlines. -/
theorem Form.of_newline (h : Form kind text) (hnewline : '\n' ∈ text) :
    text = ['\n'] ∨ ∃ body, text = '"' :: (body ++ ['"']) ∧ '"' ∉ body := by
  cases h with
  | blank => exact .inl (by simpa [eq_comm] using hnewline)
  | comment hbody => simp [hbody] at hnewline
  | @operator first _ hmem | @longOperator first _ hmem =>
      have hother : first ≠ '\n' := by
        rintro rfl
        simp [shortOperators, longOperators] at hmem
      simp [hother.symm] at hnewline
  | string hbody => exact .inr ⟨_, rfl, hbody⟩
  | number _ hdigits => exact absurd (hdigits _ hnewline) (by decide)
  | fraction _ hdigits _ hplaces =>
      rw [List.mem_append, List.mem_cons] at hnewline
      rcases hnewline with hmem | hpoint | hmem
      · exact absurd (hdigits _ hmem) (by decide)
      · simp at hpoint
      · exact absurd (hplaces _ hmem) (by decide)
  | word hfirst hothers =>
      rcases List.mem_cons.mp hnewline with rfl | hmem
      · exact absurd hfirst (by decide)
      · exact absurd (hothers _ hmem) (by decide)

/-- What has a form and reaches behind the newline is a string that the first text leaves open. -/
theorem Form.of_prefix_append (h : Form kind text) (hpre : text <+: rest ++ '\n' :: later)
    (hrest : rest ≠ []) : text <+: rest ∨ ∃ body, rest = '"' :: body ∧ '"' ∉ body := by
  obtain ⟨first, body, rfl⟩ := List.exists_cons_of_ne_nil hrest
  rcases List.prefix_or_prefix_of_prefix hpre (List.prefix_append _ _) with
    hwithin | ⟨others, rfl⟩
  · exact .inl hwithin
  · rw [List.prefix_append_right_inj] at hpre
    rcases List.prefix_cons_iff.mp hpre with rfl | ⟨others, rfl, -⟩
    · rw [List.append_nil]
      exact .inl (List.prefix_refl _)
    · rcases h.of_newline (by simp) with hblank | ⟨inner, htext, hinner⟩
      · simp at hblank
      · rw [List.cons_append, List.cons.injEq] at htext
        obtain ⟨rfl, htext⟩ := htext
        have hlength := congrArg List.length htext
        simp only [List.length_append, List.length_cons, List.length_nil] at hlength
        have hbody : body <+: inner :=
          List.prefix_of_prefix_length_le ⟨_, htext⟩ (List.prefix_append _ _) (by omega)
        exact .inr ⟨body, rfl, fun hquote => hinner (hbody.subset hquote)⟩

theorem Longest.append (h : Longest text segment) (later : List Char) :
    Longest (text ++ '\n' :: later) segment where
  form := h.form
  isPrefix := h.isPrefix.trans (List.prefix_append _ _)
  longest kind other hother hpre := by
    have hne : text ≠ [] := by
      rintro rfl
      exact h.form.ne_nil (List.prefix_nil.mp h.isPrefix)
    rcases hother.of_prefix_append hpre hne with hwithin | ⟨body, rfl, hquote⟩
    · exact h.longest kind other hother hwithin
    · obtain ⟨first, inner, htext⟩ := List.exists_cons_of_ne_nil h.form.ne_nil
      have hform := h.form
      have hisPrefix := h.isPrefix
      rw [htext] at hform hisPrefix
      obtain ⟨rfl, hinner⟩ := List.cons_prefix_cons.mp hisPrefix
      obtain ⟨-, string, -, rfl⟩ := hform.of_opening
      exact absurd (hinner.subset (by simp)) hquote

theorem Begins.append (h : Begins text segment) (hkind : segment.kind ≠ .unterminated)
    (later : List Char) : Begins (text ++ '\n' :: later) segment := by
  cases h with
  | longest hlongest => exact .longest (hlongest.append later)
  | unterminated => exact absurd rfl hkind
  | @stray first rest htext hfirst hnone =>
      subst htext
      refine .stray rfl hfirst fun kind other hother hpre => ?_
      rcases hother.of_prefix_append hpre (by simp) with hwithin | ⟨body, htext, -⟩
      · exact hnone kind other hother hwithin
      · exact hfirst (List.cons.inj htext).1

theorem Partition.append {segments others : List Segment} (h : Partition text segments)
    (hkind : ∀ segment ∈ segments, segment.kind ≠ .unterminated)
    (hlater : Partition later others) :
    Partition (text ++ '\n' :: later) (segments ++ ⟨.blank, ['\n']⟩ :: others) := by
  induction h with
  | nil =>
      let newline : Segment := ⟨.blank, ['\n']⟩
      have hnewline : Begins (newline.text ++ later) newline := next_begins '\n' later
      exact .cons hnewline hlater
  | @cons segment rest segments hbegins _ ih =>
      have hfirst := hbegins.append (hkind segment List.mem_cons_self) later
      rw [List.append_assoc] at hfirst ⊢
      exact .cons hfirst (ih fun segment hsegment =>
        hkind segment (List.mem_cons_of_mem _ hsegment))

theorem ofText_append (hkind : ∀ segment ∈ ofText text, segment.kind ≠ .unterminated)
    (later : List Char) :
    ofText (text ++ '\n' :: later) = ofText text ++ ⟨.blank, ['\n']⟩ :: ofText later :=
  (ofText_partition _).unique ((ofText_partition text).append hkind (ofText_partition later))

/-! The same segments, read from another line on. -/

theorem Means.unique {kind other : TokenKind} {literal literal' : Option Literal}
    (h : segment.Means kind literal) (hother : segment.Means other literal') :
    kind = other ∧ literal = literal' := by
  cases h with
  | operator => cases hother; exact ⟨rfl, rfl⟩
  | @string body =>
      generalize hsegment : (⟨.string, '"' :: (body ++ ['"'])⟩ : Segment) = segment at hother
      cases hother with
      | string =>
          obtain rfl : body = _ := by simpa using hsegment
          exact ⟨rfl, rfl⟩
      | operator | number | keyword | identifier => simp at hsegment
  | number hread =>
      cases hother with
      | number hread' =>
          rw [hread, Option.some.injEq] at hread'
          rw [hread']
          exact ⟨rfl, rfl⟩
  | keyword hmem =>
      cases hother with
      | keyword hmem' =>
          rw [← Vocabulary.keywordKind?_eq_some_iff] at hmem hmem'
          exact ⟨Option.some.inj (hmem.symm.trans hmem'), rfl⟩
      | identifier hnone => exact absurd hmem (hnone _)
  | identifier hnone =>
      cases hother with
      | keyword hmem => exact absurd hmem (hnone _)
      | identifier => exact ⟨rfl, rfl⟩

end Segment

/-- Tokens of two vocabularies that differ in the places of their symbols, and of which the second
stands some lines further down. -/
structure Token.Raised (lines : Nat) (names others : Names) (left right : Token) : Prop where
  kind_eq : left.kind = right.kind
  spelling_eq : left.lexeme.spelling = right.lexeme.spelling
  literal_eq : left.literal = right.literal
  line_eq : right.line.toNat = left.line.toNat + lines
  knows_left : names.Knows left.lexeme
  knows_right : others.Knows right.lexeme

namespace Segment

variable {segment : Segment} {segments : List Segment} {line line' : Line} {lines : Nat}

/-- The newlines of a row of segments. -/
def newlinesOf (segments : List Segment) : Nat :=
  (segments.flatMap (·.text)).count '\n'

theorem newlinesOf_cons (segment : Segment) (segments : List Segment) :
    newlinesOf (segment :: segments) = segment.text.count '\n' + newlinesOf segments := by
  rw [newlinesOf, List.flatMap_cons, List.count_append, newlinesOf]

theorem newlinesOf_ofText (text : List Char) : newlinesOf (ofText text) = text.count '\n' := by
  rw [newlinesOf, (ofText_partition text).append_eq]

theorem toNat_add_ofNat {lines : Nat} (h : line.toNat + lines < Nat.pow 2 32) :
    (line + .ofNat lines).toNat = line.toNat + lines := by
  rw [UInt32.toNat_add, UInt32.toNat_ofNat']
  change (line.toNat + lines % Nat.pow 2 32) % Nat.pow 2 32 = _
  rw [Nat.mod_eq_of_lt (by omega : lines < _), Nat.mod_eq_of_lt h]

theorem toNat_add_newlines (h : line.toNat + segment.text.count '\n' < Nat.pow 2 32) :
    (line + segment.newlines).toNat = line.toNat + segment.text.count '\n' :=
  toNat_add_ofNat h

theorem toNat_lineAfter (h : line.toNat + newlinesOf segments < Nat.pow 2 32) :
    (lineAfter line segments).toNat = line.toNat + newlinesOf segments := by
  induction segments generalizing line with
  | nil => rfl
  | cons segment segments ih =>
      rw [newlinesOf_cons] at h ⊢
      have hbound : line.toNat + segment.text.count '\n' < Nat.pow 2 32 := by omega
      have hfirst := toNat_add_newlines hbound
      rw [lineAfter, List.foldl_cons]
      refine (ih (by omega)).trans ?_
      omega

variable {names others : Names} {tokens tokens' : List Token}
  {complaints complaints' : List Diagnostic}

theorem Becomes.raised {token token' : Token} (h : segment.Becomes names line token)
    (hother : segment.Becomes others line' token') (hline : line'.toNat = line.toNat + lines) :
    Token.Raised lines names others token token' := by
  obtain ⟨hkind, hliteral⟩ := h.means.unique hother.means
  exact ⟨hkind, h.spelling_eq.trans hother.spelling_eq.symm, hliteral,
    by rw [h.line_eq, hother.line_eq, hline], h.knows, hother.knows⟩

theorem Means.kind_ne {kind : TokenKind} {literal : Option Literal}
    (h : segment.Means kind literal) : segment.kind ≠ .blank ∧ segment.kind ≠ .comment ∧
      segment.kind ≠ .unterminated ∧ ∀ character, segment.kind ≠ .stray character := by
  cases h <;> simp

theorem newlines_raised (hline : line'.toNat = line.toNat + lines)
    (hlast : line'.toNat + newlinesOf (segment :: segments) < Nat.pow 2 32) :
    (line' + segment.newlines).toNat = (line + segment.newlines).toNat + lines ∧
      (line' + segment.newlines).toNat + newlinesOf segments < Nat.pow 2 32 := by
  rw [newlinesOf_cons] at hlast
  rw [toNat_add_newlines (by omega), toNat_add_newlines (by omega)]
  omega

/-- What segments without complaints become, they become on every line. -/
theorem Read.raised (h : Read names line segments tokens [])
    (hother : Read others line' segments tokens' complaints')
    (hline : line'.toNat = line.toNat + lines)
    (hlast : line'.toNat + newlinesOf segments < Nat.pow 2 32) :
    complaints' = [] ∧ List.Forall₂ (Token.Raised lines names others) tokens tokens' := by
  generalize hnone : ([] : List Diagnostic) = complaints at h
  induction h generalizing line' tokens' complaints' with
  | nil =>
      cases hother
      exact ⟨rfl, .nil⟩
  | gap hkind _ ih =>
      obtain ⟨hnext, hbound⟩ := newlines_raised hline hlast
      cases hother with
      | gap _ hread' => exact ih hread' hnext hbound hnone
      | token hbecomes' _ =>
          obtain ⟨hblank, hcomment, -⟩ := hbecomes'.means.kind_ne
          exact absurd hkind (not_or.mpr ⟨hblank, hcomment⟩)
      | unterminated hkind' | stray hkind' => simp [hkind'] at hkind
  | token hbecomes _ ih =>
      obtain ⟨hnext, hbound⟩ := newlines_raised hline hlast
      obtain ⟨hblank, hcomment, hunterminated, hstray⟩ := hbecomes.means.kind_ne
      cases hother with
      | gap hkind' => exact absurd hkind' (not_or.mpr ⟨hblank, hcomment⟩)
      | token hbecomes' hread' =>
          obtain ⟨hcomplaints, htokens⟩ := ih hread' hnext hbound hnone
          exact ⟨hcomplaints, .cons (hbecomes.raised hbecomes' hnext) htokens⟩
      | unterminated hkind' => exact absurd hkind' hunterminated
      | stray hkind' => exact absurd hkind' (hstray _)
  | unterminated | stray => contradiction

/-- A row of segments is read part by part. -/
theorem Read.split {segments' : List Segment}
    (h : Read names line (segments ++ segments') tokens complaints) :
    ∃ first second before after, tokens = first ++ second ∧ complaints = before ++ after ∧
      Read names line segments first before ∧
      Read names (lineAfter line segments) segments' second after := by
  induction segments generalizing line tokens complaints with
  | nil => exact ⟨[], tokens, [], complaints, rfl, rfl, .nil, h⟩
  | cons segment segments ih =>
      rw [List.cons_append] at h
      cases h with
      | gap hkind hread =>
          obtain ⟨first, second, before, after, rfl, rfl, hfirst, hsecond⟩ := ih hread
          exact ⟨first, second, before, after, rfl, rfl, .gap hkind hfirst, hsecond⟩
      | token hbecomes hread =>
          obtain ⟨first, second, before, after, rfl, rfl, hfirst, hsecond⟩ := ih hread
          exact ⟨_ :: first, second, before, after, rfl, rfl, .token hbecomes hfirst, hsecond⟩
      | unterminated hkind hread =>
          obtain ⟨first, second, before, after, rfl, rfl, hfirst, hsecond⟩ := ih hread
          exact ⟨first, second, _ :: before, after, rfl, rfl, .unterminated hkind hfirst, hsecond⟩
      | stray hkind hread =>
          obtain ⟨first, second, before, after, rfl, rfl, hfirst, hsecond⟩ := ih hread
          exact ⟨first, second, _ :: before, after, rfl, rfl, .stray hkind hfirst, hsecond⟩

/-- No segment is a string left open unless there is a complaint about one. -/
theorem Read.kind_ne_unterminated (h : Read names line segments tokens complaints)
    (hclosed : ∀ complaint ∈ complaints, complaint.complaint ≠ .lexical .unterminatedString) :
    ∀ segment ∈ segments, segment.kind ≠ .unterminated := by
  induction h with
  | nil => simp
  | gap hkind _ ih =>
      refine List.forall_mem_cons.mpr ⟨fun hother => ?_, ih hclosed⟩
      simp [hother] at hkind
  | token hbecomes _ ih =>
      exact List.forall_mem_cons.mpr ⟨hbecomes.means.kind_ne.2.2.1, ih hclosed⟩
  | unterminated => simp at hclosed
  | stray hkind _ ih =>
      rw [List.forall_mem_cons] at hclosed ⊢
      exact ⟨by simp [hkind], ih hclosed.2⟩

end Segment

end Treewalk
