import Treewalk.Proofs.Lexing.Joining

/-!
Texts that one vocabulary reads. The tokens of two texts with a newline between them are those of
the one, without its end, and those of the other, further down: the same tokens, with the same
symbols, in whichever order the vocabulary has read the three texts and whatever else it has been
used for.
-/

namespace Treewalk

def Token.raise (lines : Line) (token : Token) : Token :=
  { token with line := token.line + lines }

def Diagnostic.raise (lines : Line) (diagnostic : Diagnostic) : Diagnostic :=
  { diagnostic with line := diagnostic.line + lines }

/-- A table makes one symbol of each spelling. -/
theorem Names.Knows.unique {names : Names} {left right : Symbol} (hleft : names.Knows left)
    (hright : names.Knows right) (hnodup : names.spellings.Nodup)
    (hspelling : left.spelling = right.spelling) : left = right := by
  have hsame := (same_iff_spelling_eq hnodup hleft hright).mpr hspelling
  obtain ⟨htable, hplace⟩ := Symbol.same_iff.mp hsame
  obtain ⟨table, place, spelling⟩ := left
  obtain ⟨table', place', spelling'⟩ := right
  dsimp only at htable hplace hspelling
  rw [htable, hplace, hspelling]

theorem Token.Ends.unique {names : Names} {line : Line} {token other : Token}
    (h : token.Ends names line) (hother : other.Ends names line)
    (hnodup : names.spellings.Nodup) : token = other := by
  have hlexeme := h.knows.unique hother.knows hnodup (h.spelling_eq.trans hother.spelling_eq.symm)
  obtain ⟨kind, lexeme, literal, line⟩ := token
  obtain ⟨kind', lexeme', literal', line'⟩ := other
  obtain ⟨rfl, -, -, rfl, rfl⟩ := h
  obtain ⟨rfl, -, -, rfl, rfl⟩ := hother
  exact congrArg (Token.mk _ · _ _) hlexeme

namespace Segment

variable {names : Names} {segment : Segment} {segments : List Segment} {line : Line}
  {tokens tokens' : List Token} {complaints complaints' : List Diagnostic}

theorem Becomes.unique {token other : Token} (h : segment.Becomes names line token)
    (hother : segment.Becomes names line other) (hnodup : names.spellings.Nodup) :
    token = other := by
  have hlexeme := h.knows.unique hother.knows hnodup (h.spelling_eq.trans hother.spelling_eq.symm)
  obtain ⟨hkind, hliteral⟩ := h.means.unique hother.means
  have hline := h.line_eq.trans hother.line_eq.symm
  obtain ⟨kind, lexeme, literal, line⟩ := token
  obtain ⟨kind', lexeme', literal', line'⟩ := other
  dsimp only at hkind hlexeme hliteral hline
  rw [hkind, hlexeme, hliteral, hline]

/-- A table allows one reading of a row of segments. -/
theorem Read.unique (h : Read names line segments tokens complaints)
    (hother : Read names line segments tokens' complaints') (hnodup : names.spellings.Nodup) :
    tokens = tokens' ∧ complaints = complaints' := by
  induction h generalizing tokens' complaints' with
  | nil =>
      cases hother
      exact ⟨rfl, rfl⟩
  | gap hkind _ ih =>
      cases hother with
      | gap _ hread' => exact ih hread'
      | token hbecomes' _ =>
          obtain ⟨hblank, hcomment, -⟩ := hbecomes'.means.kind_ne
          exact absurd hkind (not_or.mpr ⟨hblank, hcomment⟩)
      | unterminated hkind' | stray hkind' => simp [hkind'] at hkind
  | token hbecomes _ ih =>
      obtain ⟨hblank, hcomment, hunterminated, hstray⟩ := hbecomes.means.kind_ne
      cases hother with
      | gap hkind' => exact absurd hkind' (not_or.mpr ⟨hblank, hcomment⟩)
      | token hbecomes' hread' =>
          obtain ⟨rfl, rfl⟩ := ih hread'
          exact ⟨congrArg (· :: _) (hbecomes.unique hbecomes' hnodup), rfl⟩
      | unterminated hkind' => exact absurd hkind' hunterminated
      | stray hkind' => exact absurd hkind' (hstray _)
  | unterminated hkind _ ih =>
      cases hother with
      | gap hkind' => simp [hkind] at hkind'
      | token hbecomes' => exact absurd hkind hbecomes'.means.kind_ne.2.2.1
      | unterminated _ hread' =>
          obtain ⟨rfl, rfl⟩ := ih hread'
          exact ⟨rfl, rfl⟩
      | stray hkind' => simp [hkind] at hkind'
  | stray hkind _ ih =>
      cases hother with
      | gap hkind' => simp [hkind] at hkind'
      | token hbecomes' => exact absurd hkind (hbecomes'.means.kind_ne.2.2.2 _)
      | unterminated hkind' => simp [hkind] at hkind'
      | stray hkind' hread' =>
          obtain ⟨rfl, rfl⟩ := ih hread'
          obtain rfl := SegmentKind.stray.inj (hkind.symm.trans hkind')
          exact ⟨rfl, rfl⟩

/-! Lines are counted from the line on which the reading begins. -/

theorem line_right_comm (line amount lines : Line) :
    line + amount + lines = line + lines + amount := by
  rw [UInt32.add_assoc, UInt32.add_comm amount lines, ← UInt32.add_assoc]

theorem Becomes.raise {token : Token} (h : segment.Becomes names line token) (lines : Line) :
    segment.Becomes names (line + lines) (token.raise lines) where
  means := h.means
  spelling_eq := h.spelling_eq
  knows := h.knows
  line_eq := congrArg (· + lines) h.line_eq

theorem Read.raise (h : Read names line segments tokens complaints) (lines : Line) :
    Read names (line + lines) segments (tokens.map (Token.raise lines))
      (complaints.map (Diagnostic.raise lines)) := by
  induction h with
  | nil => exact .nil
  | gap hkind _ ih =>
      rw [line_right_comm] at ih
      exact .gap hkind ih
  | token hbecomes _ ih =>
      have hraised := hbecomes.raise lines
      rw [line_right_comm] at ih hraised
      exact .token hraised ih
  | unterminated hkind _ ih =>
      rw [line_right_comm] at ih
      rw [List.map_cons, Diagnostic.raise, line_right_comm]
      exact .unterminated hkind ih
  | stray hkind _ ih =>
      rw [line_right_comm] at ih
      rw [List.map_cons, Diagnostic.raise, line_right_comm]
      exact .stray hkind ih

theorem toNat_add_newlinesOf (h : line.toNat + newlinesOf (segment :: segments) < Nat.pow 2 32) :
    (line + segment.newlines).toNat + newlinesOf segments =
      line.toNat + newlinesOf (segment :: segments) := by
  rw [newlinesOf_cons] at h ⊢
  rw [toNat_add_newlines (by omega), Nat.add_assoc]

theorem Read.toNat_line_le (h : Read names line segments tokens complaints)
    (hlast : line.toNat + newlinesOf segments < Nat.pow 2 32) :
    (∀ token ∈ tokens, token.line.toNat ≤ line.toNat + newlinesOf segments) ∧
      ∀ complaint ∈ complaints, complaint.line.toNat ≤ line.toNat + newlinesOf segments := by
  induction h with
  | nil => simp
  | gap _ _ ih =>
      have hnext := toNat_add_newlinesOf hlast
      rw [← hnext] at hlast ⊢
      exact ih hlast
  | token hbecomes _ ih =>
      have hnext := toNat_add_newlinesOf hlast
      rw [← hnext] at hlast ⊢
      refine ⟨List.forall_mem_cons.mpr ⟨?_, (ih hlast).1⟩, (ih hlast).2⟩
      rw [hbecomes.line_eq]
      exact Nat.le_add_right _ _
  | unterminated _ _ ih | stray _ _ ih =>
      have hnext := toNat_add_newlinesOf hlast
      rw [← hnext] at hlast ⊢
      exact ⟨(ih hlast).1, List.forall_mem_cons.mpr ⟨Nat.le_add_right _ _, (ih hlast).2⟩⟩

theorem lineAfter_eq (line : Line) (segments : List Segment) :
    lineAfter line segments = line + UInt32.ofNat (newlinesOf segments) := by
  induction segments generalizing line with
  | nil => exact (UInt32.add_zero line).symm
  | cons segment segments ih =>
      rw [newlinesOf_cons, UInt32.ofNat_add, ← UInt32.add_assoc]
      exact ih (line + segment.newlines)

/-- Two texts with a newline between them are read one after the other. -/
theorem Read.seam {first second : List Char}
    (hfirst : Read names 1 (ofText first) tokens complaints)
    (hsecond : Read names 1 (ofText second) tokens' complaints')
    (hclosed : ∀ complaint ∈ complaints, complaint.complaint ≠ .lexical .unterminatedString)
    {lines : Line} (hlines : lines = .ofNat (first.count '\n' + 1)) :
    Read names 1 (ofText (first ++ '\n' :: second)) (tokens ++ tokens'.map (Token.raise lines))
      (complaints ++ complaints'.map (Diagnostic.raise lines)) := by
  let newline : Segment := ⟨.blank, ['\n']⟩
  have hline : lineAfter 1 (ofText first) + newline.newlines = 1 + lines := by
    rw [lineAfter_eq, newlinesOf_ofText, UInt32.add_assoc, hlines, UInt32.ofNat_add]
    rfl
  rw [ofText_append (hfirst.kind_ne_unterminated hclosed)]
  exact hfirst.append (.gap (.inl rfl) (hline ▸ hsecond.raise lines))

end Segment

theorem Token.Ends.raise {names : Names} {line : Line} {token : Token}
    (h : token.Ends names line) (lines : Line) : (token.raise lines).Ends names (line + lines) :=
  { h with line_eq := congrArg (· + lines) h.line_eq }

/-! Texts in one context. -/

/-- A text read once, with what had been recorded before and what came of it. -/
structure Scan where
  text : String
  before : Diagnostics
  lexed : Lexed

/-- What is recorded of the text itself. -/
def Scan.added (scan : Scan) : List Diagnostic :=
  scan.lexed.diagnostics.entries.drop scan.before.entries.length

/-- What a vocabulary has been used for since it was new: symbols were made and texts read, each
with all that had been done before. -/
inductive Vocabulary.History : Vocabulary → List Scan → Prop
  | new (table : Nat) : History (.new table) []
  | symbol {vocabulary : Vocabulary} {scans : List Scan} (spelling : String) :
      History vocabulary scans → History (vocabulary.symbol spelling).2 scans
  | scan {vocabulary : Vocabulary} {scans : List Scan} (text : String)
      (diagnostics : Diagnostics) : History vocabulary scans →
      History (Lexed.ofText text vocabulary diagnostics).vocabulary
        (⟨text, diagnostics, Lexed.ofText text vocabulary diagnostics⟩ :: scans)

/-- What a scan comes to, told by the symbols of a table that has grown since. -/
structure Scan.Within (scan : Scan) (names : Names) (tokens : List Token) (ending : Token) :
    Prop where
  read : Segment.Read names 1 (Segment.ofText scan.text.toList) tokens scan.added
  plain : ∀ token ∈ tokens, token.isEnd = false
  ends : ending.Ends names (1 + UInt32.ofNat (scan.text.toList.count '\n'))
  tokens_eq : scan.lexed.tokens = tokens ++ [ending]
  entries_eq : scan.lexed.diagnostics.entries = scan.before.entries ++ scan.added

theorem Scan.Within.mono {scan : Scan} {names later : Names} {tokens : List Token} {ending : Token}
    (h : scan.Within names tokens ending) (hextends : names.Extends later) :
    scan.Within later tokens ending :=
  { h with
    read := h.read.mono hextends
    ends := { h.ends with knows := h.ends.knows.mono hextends } }

theorem Scan.exists_within (text : String) {vocabulary : Vocabulary} (h : vocabulary.Valid)
    (diagnostics : Diagnostics) : ∃ tokens ending,
      Within ⟨text, diagnostics, Lexed.ofText text vocabulary diagnostics⟩
        (Lexed.ofText text vocabulary diagnostics).vocabulary.names tokens ending := by
  obtain ⟨tokens, ending, complaints, hread, hplain, hends, htokens, hentries⟩ :=
    Lexed.ofText_reads text h diagnostics
  have hadded : Scan.added ⟨text, diagnostics, Lexed.ofText text vocabulary diagnostics⟩ =
      complaints := by
    rw [Scan.added, hentries, List.drop_left]
  rw [Segment.lineAfter_eq, Segment.newlinesOf_ofText] at hends
  exact ⟨tokens, ending, hadded.symm ▸ hread, hplain, hends, htokens, hadded.symm ▸ hentries⟩

theorem Scan.Within.toNat_line_le {scan : Scan} {names : Names} {tokens : List Token}
    {ending : Token} (h : scan.Within names tokens ending)
    (hbound : scan.text.toList.count '\n' < Nat.pow 2 32 - 1) :
    (∀ token ∈ scan.lexed.tokens, token.line.toNat ≤ scan.text.toList.count '\n' + 1) ∧
      ∀ diagnostic ∈ scan.added, diagnostic.line.toNat ≤ scan.text.toList.count '\n' + 1 := by
  have hlast : (1 : Line).toNat + scan.text.toList.count '\n' < Nat.pow 2 32 := by
    change 1 + _ < _
    omega
  have hread := h.read.toNat_line_le (by rwa [Segment.newlinesOf_ofText])
  rw [Segment.newlinesOf_ofText, Nat.add_comm] at hread
  have hending : ending.line.toNat ≤ scan.text.toList.count '\n' + 1 := by
    rw [h.ends.line_eq, Segment.toNat_add_ofNat hlast, Nat.add_comm]
    exact Nat.le_refl _
  rw [h.tokens_eq, List.forall_mem_append, List.forall_mem_singleton]
  exact ⟨⟨hread.1, hending⟩, hread.2⟩

namespace Vocabulary.History

variable {vocabulary : Vocabulary} {scans : List Scan}

theorem valid (h : vocabulary.History scans) : vocabulary.Valid := by
  induction h with
  | new table => exact new_valid table
  | symbol spelling _ ih => exact ih.symbol spelling
  | scan text diagnostics _ ih =>
      exact (Lexed.ofText_twins text ih ih diagnostics).valid_left

theorem exists_within (h : vocabulary.History scans) {scan : Scan} (hscan : scan ∈ scans) :
    ∃ tokens ending, scan.Within vocabulary.names tokens ending := by
  induction h with
  | new => contradiction
  | symbol spelling _ ih =>
      obtain ⟨tokens, ending, hwithin⟩ := ih hscan
      exact ⟨tokens, ending, hwithin.mono (Vocabulary.symbol_extends _ spelling)⟩
  | scan text diagnostics hbefore ih =>
      rcases List.mem_cons.mp hscan with rfl | hscan
      · exact Scan.exists_within text hbefore.valid diagnostics
      · obtain ⟨tokens, ending, hwithin⟩ := ih hscan
        exact ⟨tokens, ending, hwithin.mono (Lexed.ofText_extends text _ diagnostics)⟩

/-- A newline keeps two texts apart. Unless the first ends within a string, what is read of the
whole is what is read of the first, but for its end, and then what is read of the second, as many
lines further down as the first and the newline take; and so is what is recorded. No line is
counted beyond its bits while the lines are not too many. -/
theorem scan_joined (h : vocabulary.History scans) {first second whole : Scan}
    (hfirst : first ∈ scans) (hsecond : second ∈ scans) (hwhole : whole ∈ scans)
    (htext : whole.text = first.text ++ "\n" ++ second.text)
    (hclosed : ∀ complaint ∈ first.added, complaint.complaint ≠ .lexical .unterminatedString) :
    let lines := first.text.toList.count '\n' + 1
    (∃ tokens ending, first.lexed.tokens = tokens ++ [ending] ∧ ending.isEnd = true ∧
      (∀ token ∈ tokens, token.isEnd = false) ∧
      whole.lexed.tokens = tokens ++ second.lexed.tokens.map (Token.raise (.ofNat lines))) ∧
    (∀ scan ∈ scans, scan.lexed.diagnostics.entries = scan.before.entries ++ scan.added) ∧
    whole.added = first.added ++ second.added.map (Diagnostic.raise (.ofNat lines)) ∧
    (whole.text.toList.count '\n' < Nat.pow 2 32 - 1 →
      (∀ token ∈ second.lexed.tokens,
        (token.raise (.ofNat lines)).line.toNat = token.line.toNat + lines) ∧
      ∀ diagnostic ∈ second.added,
        (diagnostic.raise (.ofNat lines)).line.toNat = diagnostic.line.toNat + lines) := by
  intro lines
  obtain ⟨tokens, ending, hread, hplain, hends, htokens, -⟩ := h.exists_within hfirst
  obtain ⟨tokens', ending', hread', -, hends', htokens', -⟩ := h.exists_within hsecond
  obtain ⟨tokens'', ending'', hread'', -, hends'', htokens'', -⟩ := h.exists_within hwhole
  have hnodup := h.valid.nodup
  have htext' : whole.text.toList = first.text.toList ++ '\n' :: second.text.toList := by
    simp [htext]
  have hcount : whole.text.toList.count '\n' = second.text.toList.count '\n' + lines := by
    rw [htext', List.count_append, List.count_cons_self]
    omega
  rw [htext'] at hread''
  obtain ⟨rfl, hadded⟩ := hread''.unique (hread.seam hread' hclosed rfl) hnodup
  have hlast := hends'.raise (.ofNat lines)
  rw [UInt32.add_assoc, ← UInt32.ofNat_add, ← hcount] at hlast
  obtain rfl := hends''.unique hlast hnodup
  refine ⟨⟨tokens, ending, htokens, ?_, hplain, ?_⟩, ?_, hadded, fun hbound => ?_⟩
  · simp [Token.isEnd, hends.kind_eq]
  · rw [htokens'', htokens', List.map_append, List.append_assoc]
    rfl
  · intro scan hscan
    obtain ⟨_, _, hwithin⟩ := h.exists_within hscan
    exact hwithin.entries_eq
  · obtain ⟨_, _, hwithin⟩ := h.exists_within hsecond
    obtain ⟨htokens, hadded⟩ := hwithin.toNat_line_le (by omega)
    exact ⟨fun token hmem => Segment.toNat_add_ofNat (by have := htokens token hmem; omega),
      fun diagnostic hmem => Segment.toNat_add_ofNat (by have := hadded diagnostic hmem; omega)⟩

/-- Both texts have a character with which nothing begins. The whole is read between them. -/
theorem scan_joined_strayCharacters :
    let first : Scan := ⟨"a @", {}, .ofText "a @" (.new 0) {}⟩
    let whole : Scan := ⟨"a @\n# a", first.lexed.diagnostics,
      .ofText "a @\n# a" first.lexed.vocabulary first.lexed.diagnostics⟩
    let second : Scan := ⟨"# a", {}, .ofText "# a" whole.lexed.vocabulary {}⟩
    first.added = [⟨1, "", .lexical (.unexpectedCharacter '@')⟩] ∧
      whole.lexed.tokens = first.lexed.tokens.dropLast ++
        second.lexed.tokens.map (Token.raise 1) ∧
      whole.added = first.added ++ second.added.map (Diagnostic.raise 1) := by
  intro first whole second
  have hhistory : History second.lexed.vocabulary [second, whole, first] :=
    .scan _ _ (.scan _ _ (.scan _ _ (.new 0)))
  have hadded : first.added = [⟨1, "", .lexical (.unexpectedCharacter '@')⟩] := by decide +kernel
  have hclosed : ∀ complaint ∈ first.added,
      complaint.complaint ≠ .lexical .unterminatedString := by simp [hadded]
  have hfirst : first ∈ [second, whole, first] := by simp
  have hsecond : second ∈ [second, whole, first] := by simp
  have hwhole : whole ∈ [second, whole, first] := by simp
  obtain ⟨⟨tokens, ending, htokens, -, -, hwhole⟩, -, hrecorded, -⟩ :=
    hhistory.scan_joined hfirst hsecond hwhole rfl hclosed
  have hlines : UInt32.ofNat (first.text.toList.count '\n' + 1) = 1 := by decide +kernel
  rw [hlines] at hwhole hrecorded
  refine ⟨hadded, ?_, hrecorded⟩
  rw [hwhole, htokens, List.dropLast_concat]

end Vocabulary.History

end Treewalk
