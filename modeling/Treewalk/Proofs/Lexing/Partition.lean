import Mathlib.Data.List.TakeWhile
import Treewalk.Segment

/-!
The segments of a text are the only ones of which each is as long as possible: the longest prefix
of what is left that has the form of a segment. Where no prefix has such a form, a quote takes all
that is left and any other character stands alone.
-/

namespace Treewalk.Segment

def shortOperators : List (Char × TokenKind) :=
  [('(', .leftParen), (')', .rightParen), ('{', .leftBrace), ('}', .rightBrace), (',', .comma),
    ('.', .dot), ('-', .minus), ('+', .plus), (';', .semicolon), ('*', .star), ('/', .slash),
    ('!', .bang), ('=', .equal), ('<', .less), ('>', .greater)]

/-- The operators of two characters, all of which end with an equals sign. -/
def longOperators : List (Char × TokenKind) :=
  [('!', .bangEqual), ('=', .equalEqual), ('<', .lessEqual), ('>', .greaterEqual)]

/-- The texts that are a segment of a kind by themselves. -/
inductive Form : SegmentKind → List Char → Prop
  | blank {character : Char} : character ∈ [' ', '\t', '\r', '\n'] → Form .blank [character]
  | comment {body : List Char} : '\n' ∉ body → Form .comment ('/' :: '/' :: body)
  | operator {first : Char} {kind : TokenKind} : (first, kind) ∈ shortOperators →
      Form (.operator kind) [first]
  | longOperator {first : Char} {kind : TokenKind} : (first, kind) ∈ longOperators →
      Form (.operator kind) [first, '=']
  | string {body : List Char} : '"' ∉ body → Form .string ('"' :: (body ++ ['"']))
  | number {digits : List Char} : digits ≠ [] → (∀ digit ∈ digits, digit.isDigit) →
      Form .number digits
  | fraction {whole places : List Char} : whole ≠ [] → (∀ digit ∈ whole, digit.isDigit) →
      places ≠ [] → (∀ digit ∈ places, digit.isDigit) → Form .number (whole ++ '.' :: places)
  | word {first : Char} {rest : List Char} : first.isAlpha ∨ first = '_' →
      (∀ character ∈ rest, character.isAlphanum ∨ character = '_') → Form .word (first :: rest)

structure Longest (text : List Char) (segment : Segment) : Prop where
  form : Form segment.kind segment.text
  isPrefix : segment.text <+: text
  longest : ∀ kind other, Form kind other → other <+: text → other.length ≤ segment.text.length

/-- The segment with which a text begins. -/
inductive Begins (text : List Char) : Segment → Prop
  | longest {segment : Segment} : Longest text segment → Begins text segment
  | unterminated {rest : List Char} : text = '"' :: rest →
      (∀ kind other, Form kind other → ¬ other <+: text) → Begins text ⟨.unterminated, text⟩
  | stray {first : Char} {rest : List Char} : text = first :: rest → first ≠ '"' →
      (∀ kind other, Form kind other → ¬ other <+: text) → Begins text ⟨.stray first, [first]⟩

inductive Partition : List Char → List Segment → Prop
  | nil : Partition [] []
  | cons {segment : Segment} {rest : List Char} {segments : List Segment} :
      Begins (segment.text ++ rest) segment → Partition rest segments →
      Partition (segment.text ++ rest) (segment :: segments)

/-! What a segment can be is told by its first character. -/

inductive Opening where
  | blank
  | quote
  | digit
  | letter
  | operator (kind : TokenKind)
  | other

def opening (first : Char) : Opening :=
  if isBlank first then .blank
  else if first = '"' then .quote
  else if first.isDigit then .digit
  else if isWordStart first then .letter
  else
    match operator? first with
    | some kind => .operator kind
    | none => .other

variable {first : Char} {rest body text : List Char} {kind other : SegmentKind}
  {operator : TokenKind}

theorem isBlank_iff : isBlank first = true ↔ first ∈ [' ', '\t', '\r', '\n'] := by
  simp [isBlank, or_assoc]

theorem isBlank_or_quote (h : isBlank first = true ∨ first = '"') :
    first.isDigit = false ∧ isWordStart first = false := by
  rw [isBlank_iff] at h
  simp only [List.mem_cons, List.not_mem_nil, or_false, or_assoc] at h
  rcases h with rfl | rfl | rfl | rfl | rfl <;> exact ⟨rfl, rfl⟩

theorem isDigit_of_isWordStart (h : isWordStart first = true) : first.isDigit = false := by
  rw [isWordStart, Bool.or_eq_true, beq_iff_eq] at h
  rcases h with h | rfl
  · change (decide (first.val ≥ 65 ∧ first.val ≤ 90) ||
      (decide (first.val ≥ 97) && decide (first.val ≤ 122))) = true at h
    change (decide (first.val ≥ 48) && decide (first.val ≤ 57)) = false
    simp only [Bool.or_eq_true, Bool.and_eq_true, decide_eq_true_eq, Bool.and_eq_false_iff,
      decide_eq_false_iff_not, ge_iff_le] at h ⊢
    grind
  · rfl

theorem opening_of_isBlank (h : isBlank first = true) : opening first = .blank := by
  rw [opening, if_pos h]

theorem opening_of_isDigit (h : first.isDigit = true) : opening first = .digit := by
  have hother : ¬(isBlank first = true ∨ first = '"') := by
    intro hother
    rw [(isBlank_or_quote hother).1] at h
    contradiction
  rw [not_or] at hother
  rw [opening, if_neg hother.1, if_neg hother.2, if_pos h]

theorem opening_of_isWordStart (h : isWordStart first = true) : opening first = .letter := by
  have hother : ¬(isBlank first = true ∨ first = '"') := by
    intro hother
    rw [(isBlank_or_quote hother).2] at h
    contradiction
  rw [not_or] at hother
  rw [opening, if_neg hother.1, if_neg hother.2, if_neg (by simp [isDigit_of_isWordStart h]),
    if_pos h]

theorem operator?_eq_some_iff :
    operator? first = some operator ↔ (first, operator) ∈ shortOperators := by
  constructor
  · intro h
    unfold operator? at h
    split at h <;> first | contradiction | (cases h; decide)
  · intro h
    simp only [shortOperators, List.mem_cons, Prod.mk.injEq, List.not_mem_nil, or_false] at h
    rcases h with ⟨rfl, rfl⟩ | ⟨rfl, rfl⟩ | ⟨rfl, rfl⟩ | ⟨rfl, rfl⟩ | ⟨rfl, rfl⟩ | ⟨rfl, rfl⟩ |
      ⟨rfl, rfl⟩ | ⟨rfl, rfl⟩ | ⟨rfl, rfl⟩ | ⟨rfl, rfl⟩ | ⟨rfl, rfl⟩ | ⟨rfl, rfl⟩ | ⟨rfl, rfl⟩ |
      ⟨rfl, rfl⟩ | ⟨rfl, rfl⟩ <;> rfl

theorem mem_longOperators_iff : (first, operator) ∈ longOperators ↔
    ∃ short, operator? first = some short ∧ withEqual? short = some operator := by
  constructor
  · intro h
    simp only [longOperators, List.mem_cons, Prod.mk.injEq, List.not_mem_nil, or_false] at h
    rcases h with ⟨rfl, rfl⟩ | ⟨rfl, rfl⟩ | ⟨rfl, rfl⟩ | ⟨rfl, rfl⟩ <;> exact ⟨_, rfl, rfl⟩
  · rintro ⟨short, hshort, hlong⟩
    unfold operator? at hshort
    split at hshort <;> cases hshort <;> first | contradiction | (cases hlong; decide)

theorem opening_of_operator? (h : operator? first = some operator) :
    opening first = .operator operator := by
  unfold operator? at h
  split at h <;> first | contradiction | (cases h; rfl)

/-- What a text that is a segment can be, told by its first character. -/
theorem Form.of_opening (h : Form kind (first :: body)) :
    match opening first with
    | .blank => kind = .blank ∧ body = []
    | .quote => kind = .string ∧ ∃ inner, '"' ∉ inner ∧ body = inner ++ ['"']
    | .digit => kind = .number ∧ ((∀ digit ∈ body, digit.isDigit) ∨
        ∃ whole places, body = whole ++ '.' :: places ∧ (∀ digit ∈ whole, digit.isDigit) ∧
          places ≠ [] ∧ ∀ digit ∈ places, digit.isDigit)
    | .letter => kind = .word ∧ ∀ character ∈ body, isWordPart character
    | .operator short => (kind = .operator short ∧ body = []) ∨
        (∃ long, withEqual? short = some long ∧ kind = .operator long ∧ body = ['=']) ∨
        (short = .slash ∧ kind = .comment ∧ ∃ inner, body = '/' :: inner ∧ '\n' ∉ inner)
    | .other => False := by
  generalize htext : first :: body = text at h
  cases h with
  | blank hblank =>
      cases htext
      rw [opening_of_isBlank (isBlank_iff.mpr hblank)]
      exact ⟨rfl, rfl⟩
  | comment hbody =>
      cases htext
      exact .inr (.inr ⟨rfl, rfl, _, rfl, hbody⟩)
  | operator hmem =>
      cases htext
      rw [opening_of_operator? (operator?_eq_some_iff.mpr hmem)]
      exact .inl ⟨rfl, rfl⟩
  | longOperator hmem =>
      cases htext
      obtain ⟨short, hshort, hlong⟩ := mem_longOperators_iff.mp hmem
      rw [opening_of_operator? hshort]
      exact .inr (.inl ⟨_, hlong, rfl, rfl⟩)
  | string hbody =>
      cases htext
      exact ⟨rfl, _, hbody, rfl⟩
  | number _ hdigits =>
      cases htext
      rw [opening_of_isDigit (hdigits _ List.mem_cons_self)]
      exact ⟨rfl, .inl fun digit hdigit => hdigits digit (List.mem_cons_of_mem _ hdigit)⟩
  | @fraction whole places hwhole hdigits hplaces hplaces' =>
      obtain ⟨digit, whole, rfl⟩ := List.exists_cons_of_ne_nil hwhole
      cases htext
      rw [opening_of_isDigit (hdigits _ List.mem_cons_self)]
      exact ⟨rfl, .inr ⟨whole, places, rfl,
        fun digit hdigit => hdigits digit (List.mem_cons_of_mem _ hdigit), hplaces, hplaces'⟩⟩
  | word hfirst hrest =>
      cases htext
      have hstart : isWordStart first = true := by simpa [isWordStart] using hfirst
      rw [opening_of_isWordStart hstart]
      exact ⟨rfl, fun character hcharacter => by simpa [isWordPart] using hrest _ hcharacter⟩

theorem Form.ne_nil (h : Form kind text) : text ≠ [] := by
  cases h with
  | number hdigits => exact hdigits
  | fraction | blank | comment | operator | longOperator | string | word => simp

theorem Form.kind_unique (h : Form kind text) (hother : Form other text) : kind = other := by
  obtain ⟨first, body, rfl⟩ := List.exists_cons_of_ne_nil h.ne_nil
  have hkind := h.of_opening
  have hkind' := hother.of_opening
  cases hopening : opening first with
  | blank | quote | digit | letter =>
      simp only [hopening] at hkind hkind'
      exact hkind.1.trans hkind'.1.symm
  | operator short =>
      simp only [hopening] at hkind hkind'
      rcases hkind with ⟨rfl, rfl⟩ | ⟨long, hlong, rfl, rfl⟩ | ⟨rfl, rfl, inner, rfl, -⟩ <;>
        rcases hkind' with ⟨rfl, hbody⟩ | ⟨long', hlong', rfl, hbody⟩ |
          ⟨-, rfl, inner', hbody, -⟩
      case inr.inl.inr.inl => exact congrArg SegmentKind.operator (Option.some.inj (hlong ▸ hlong'))
      all_goals first | rfl | simp at hbody
  | other =>
      simp only [hopening] at hkind

theorem Longest.unique {segment segment' : Segment} (h : Longest text segment)
    (hother : Longest text segment') : segment = segment' := by
  have hlength : segment.text.length = segment'.text.length :=
    le_antisymm (hother.longest _ _ h.form h.isPrefix) (h.longest _ _ hother.form hother.isPrefix)
  have htext := List.IsPrefix.eq_of_length
    (List.prefix_of_prefix_length_le h.isPrefix hother.isPrefix hlength.le) hlength
  obtain ⟨kind, text⟩ := segment
  obtain ⟨kind', text'⟩ := segment'
  cases htext
  cases h.form.kind_unique hother.form
  rfl

theorem Begins.unique {segment segment' : Segment} (h : Begins text segment)
    (hother : Begins text segment') : segment = segment' := by
  cases h with
  | longest hlongest =>
      cases hother with
      | longest hother => exact hlongest.unique hother
      | unterminated _ hnone | stray _ _ hnone =>
          exact absurd hlongest.isPrefix (hnone _ _ hlongest.form)
  | unterminated htext hnone =>
      cases hother with
      | longest hother => exact absurd hother.isPrefix (hnone _ _ hother.form)
      | unterminated => rfl
      | stray htext' hfirst =>
          cases htext.symm.trans htext'
          exact absurd rfl hfirst
  | stray htext hfirst hnone =>
      cases hother with
      | longest hother => exact absurd hother.isPrefix (hnone _ _ hother.form)
      | unterminated htext' =>
          cases htext.symm.trans htext'
          exact absurd rfl hfirst
      | stray htext' =>
          cases htext.symm.trans htext'
          rfl

/-! Each cut is as long as can be. -/

/-- To be the longest it is enough to be as long as the others that begin alike. -/
theorem Longest.of_bodies {kind : SegmentKind} (hform : Form kind (first :: body))
    (hpre : body <+: rest)
    (hbodies : ∀ kind' body', Form kind' (first :: body') → body' <+: rest →
      body'.length ≤ body.length) : Longest (first :: rest) ⟨kind, first :: body⟩ where
  form := hform
  isPrefix := List.cons_prefix_cons.mpr ⟨rfl, hpre⟩
  longest kind' other hother hpre' := by
    obtain ⟨first', body', rfl⟩ := List.exists_cons_of_ne_nil hother.ne_nil
    obtain ⟨rfl, hrest⟩ := List.cons_prefix_cons.mp hpre'
    simpa using hbodies _ _ hother hrest

theorem none_of_bodies (hbodies : ∀ kind body, Form kind (first :: body) → ¬ body <+: rest)
    (kind : SegmentKind) (other : List Char) (hother : Form kind other) :
    ¬ other <+: first :: rest := by
  intro hpre
  obtain ⟨first', body', rfl⟩ := List.exists_cons_of_ne_nil hother.ne_nil
  obtain ⟨rfl, hrest⟩ := List.cons_prefix_cons.mp hpre
  exact hbodies _ _ hother hrest

theorem length_le_of_isPrefix {p : Char → Bool} (hpre : body <+: rest)
    (hbody : ∀ character ∈ body, p character) :
    body.length ≤ (rest.takeWhile p).length := by
  obtain ⟨others, rfl⟩ := hpre
  rw [List.takeWhile_append_of_pos hbody, List.length_append]
  exact Nat.le_add_right _ _

theorem cutWord_longest (h : isWordStart first = true) :
    Longest (first :: rest) (cutWord first rest).1 := by
  refine .of_bodies (.word (by simpa [isWordStart] using h) ?_) (List.takeWhile_prefix _) ?_
  · intro character hcharacter
    simpa [isWordPart] using List.mem_takeWhile_imp hcharacter
  · intro kind body hform hpre
    have hkind := hform.of_opening
    rw [opening_of_isWordStart h] at hkind
    exact length_le_of_isPrefix hpre hkind.2

theorem cutComment_longest :
    Longest ('/' :: '/' :: rest) (cutComment '/' ('/' :: rest)).1 := by
  have hcomment : ∀ character ∈ rest.takeWhile (· != '\n'), character ≠ '\n' :=
    fun character hcharacter => by simpa using List.mem_takeWhile_imp hcharacter
  have hpre : '/' :: rest.takeWhile (· != '\n') <+: '/' :: rest :=
    List.cons_prefix_cons.mpr ⟨rfl, List.takeWhile_prefix _⟩
  refine .of_bodies (.comment fun hmem => hcomment _ hmem rfl) hpre ?_
  intro kind body hform hbody
  rcases hform.of_opening with ⟨-, rfl⟩ | ⟨long, hlong, -⟩ | ⟨-, -, inner, rfl, hinner⟩
  · exact Nat.zero_le _
  · contradiction
  · have hlength := length_le_of_isPrefix (List.cons_prefix_cons.mp hbody).2
      (p := (· != '\n')) fun character hcharacter => by
        rw [bne_iff_ne]
        rintro rfl
        exact hinner hcharacter
    simpa using hlength

theorem cutOperator_longest (h : operator? first = some operator)
    (hcomment : ¬ (first = '/' ∧ rest.head? = some '/')) :
    Longest (first :: rest) (cutOperator operator first rest).1 := by
  have hopening := opening_of_operator? h
  unfold cutOperator
  split
  · next long remaining hlong =>
      refine .of_bodies (.longOperator (mem_longOperators_iff.mpr ⟨_, h, hlong⟩))
        (List.prefix_append ['='] remaining) ?_
      intro kind body hform hbody
      have hkind := hform.of_opening
      rw [hopening] at hkind
      rcases hkind with ⟨-, rfl⟩ | ⟨-, -, -, rfl⟩ | ⟨rfl, -, -⟩
      · exact Nat.zero_le _
      · exact Nat.le_refl _
      · contradiction
  · next hlong =>
      refine .of_bodies (.operator (operator?_eq_some_iff.mp h)) List.nil_prefix ?_
      intro kind body hform hbody
      have hkind := hform.of_opening
      rw [hopening] at hkind
      rcases hkind with ⟨-, rfl⟩ | ⟨long, hwith, -, rfl⟩ | ⟨rfl, -, inner, rfl, -⟩
      · exact Nat.le_refl _
      · obtain ⟨remaining, rfl⟩ := hbody
        exact absurd rfl (hlong long remaining hwith)
      · obtain ⟨remaining, rfl⟩ := hbody
        have hslash := operator?_eq_some_iff.mp h
        have hfirst : first = '/' := by simpa [shortOperators] using hslash
        exact absurd ⟨hfirst, rfl⟩ hcomment

theorem cutString_begins : Begins ('"' :: rest) (cutString '"' rest).1 := by
  have hrest := List.takeWhile_append_dropWhile (p := (· != '"')) (l := rest)
  have hbefore : ∀ character ∈ rest.takeWhile (· != '"'), character ≠ '"' :=
    fun character hcharacter => by simpa using List.mem_takeWhile_imp hcharacter
  unfold cutString
  split
  · next hdrop =>
      rw [hdrop, List.append_nil] at hrest
      refine .unterminated rfl (none_of_bodies fun kind body hform hpre => ?_)
      obtain ⟨-, inner, -, rfl⟩ := hform.of_opening
      refine hbefore '"' ?_ rfl
      rw [hrest]
      exact hpre.subset (by simp)
  · next quote remaining hdrop =>
      have hquote : quote = '"' := by
        have hhead := List.head?_dropWhile_not (· != '"') rest
        rw [hdrop] at hhead
        simpa using hhead
      subst hquote
      rw [hdrop] at hrest
      have hpre : rest.takeWhile (· != '"') ++ ['"'] <+: rest :=
        ⟨remaining, by rw [List.append_assoc]; exact hrest⟩
      refine .longest (.of_bodies (.string fun hmem => hbefore _ hmem rfl) hpre ?_)
      intro kind body hform hpre
      obtain ⟨-, inner, hinner, rfl⟩ := hform.of_opening
      have hlength := length_le_of_isPrefix ((List.prefix_append _ _).trans hpre)
        (p := (· != '"')) fun character hcharacter => by
          rw [bne_iff_ne]
          rintro rfl
          exact hinner hcharacter
      simpa using hlength

/-- A number with a fraction is split at its point. -/
theorem dropWhile_isDigit_fraction {whole places : List Char}
    (hpre : whole ++ '.' :: places <+: rest) (hwhole : ∀ digit ∈ whole, digit.isDigit) :
    rest.takeWhile Char.isDigit = whole ∧
      ∃ others, rest.dropWhile Char.isDigit = '.' :: (places ++ others) := by
  obtain ⟨others, rfl⟩ := hpre
  have hpoint : ¬ '.'.isDigit = true := by decide
  rw [List.append_assoc, List.takeWhile_append_of_pos hwhole, List.dropWhile_append_of_pos hwhole,
    List.cons_append, List.takeWhile_cons_of_neg hpoint, List.dropWhile_cons_of_neg hpoint,
    List.append_nil]
  exact ⟨rfl, others, rfl⟩

theorem cutNumber_longest (h : first.isDigit = true) :
    Longest (first :: rest) (cutNumber first rest).1 := by
  have hrest := List.takeWhile_append_dropWhile (p := Char.isDigit) (l := rest)
  have hwhole : ∀ digit ∈ first :: rest.takeWhile Char.isDigit, digit.isDigit = true := by
    intro digit hdigit
    rcases List.mem_cons.mp hdigit with rfl | hdigit
    · exact h
    · exact List.mem_takeWhile_imp hdigit
  -- Without a fraction in the text, the digits are all there is.
  have hdigits (hnone : ∀ digit more, rest.dropWhile Char.isDigit = '.' :: digit :: more →
      ¬ digit.isDigit = true) :
      Longest (first :: rest) ⟨.number, first :: rest.takeWhile Char.isDigit⟩ := by
    refine .of_bodies (.number (by simp) hwhole) (List.takeWhile_prefix _) ?_
    intro kind body hform hpre
    have hkind := hform.of_opening
    rw [opening_of_isDigit h] at hkind
    obtain ⟨-, hbody | ⟨whole, places, rfl, hbody, hplaces, hplaces'⟩⟩ := hkind
    · exact length_le_of_isPrefix hpre hbody
    · obtain ⟨-, others, hdrop⟩ := dropWhile_isDigit_fraction hpre hbody
      obtain ⟨digit, places, rfl⟩ := List.exists_cons_of_ne_nil hplaces
      exact absurd (hplaces' _ List.mem_cons_self) (hnone _ _ hdrop)
  unfold cutNumber
  dsimp only
  split
  · next digit more hdrop =>
      split
      · next hdigit =>
          have hplaces : ∀ place ∈ digit :: more.takeWhile Char.isDigit, place.isDigit = true := by
            intro place hplace
            rcases List.mem_cons.mp hplace with rfl | hplace
            · exact hdigit
            · exact List.mem_takeWhile_imp hplace
          refine .of_bodies (.fraction (by simp) hwhole (by simp) hplaces)
            ⟨more.dropWhile Char.isDigit, ?_⟩ ?_
          · rw [hdrop] at hrest
            simp [List.takeWhile_append_dropWhile, hrest]
          · intro kind body hform hpre
            have hkind := hform.of_opening
            rw [opening_of_isDigit h] at hkind
            obtain ⟨-, hbody | ⟨whole, places, rfl, hbody, -, hplaces'⟩⟩ := hkind
            · exact (length_le_of_isPrefix hpre hbody).trans (List.prefix_append _ _).length_le
            · obtain ⟨htake, others, hdrop'⟩ := dropWhile_isDigit_fraction hpre hbody
              rw [hdrop, List.cons_inj_right] at hdrop'
              have hlength := length_le_of_isPrefix (List.prefix_append places others) hplaces'
              rw [← hdrop', List.takeWhile_cons_of_pos hdigit] at hlength
              simpa [htake] using hlength
      · next hdigit =>
          refine hdigits fun digit' more' hdrop' => ?_
          cases hdrop.symm.trans hdrop'
          exact hdigit
  · next hdrop => exact hdigits fun digit more hdrop' => absurd hdrop' (hdrop digit more)

theorem stray_begins (hquote : first ≠ '"') (hopening : opening first = .other) :
    Begins (first :: rest) ⟨.stray first, [first]⟩ := by
  refine .stray rfl hquote (none_of_bodies fun kind body hform _ => ?_)
  have hkind := hform.of_opening
  rw [hopening] at hkind
  exact hkind

theorem next_begins (first : Char) (rest : List Char) :
    Begins (first :: rest) (next first rest).1 := by
  unfold next
  split
  · next hblank =>
      refine .longest (.of_bodies (.blank (isBlank_iff.mp hblank)) List.nil_prefix ?_)
      intro kind body hform _
      have hkind := hform.of_opening
      rw [opening_of_isBlank hblank] at hkind
      rw [hkind.2]
  next hblank =>
  split
  · next hcomment =>
      rw [Bool.and_eq_true, beq_iff_eq, beq_iff_eq, List.head?_eq_some_iff] at hcomment
      obtain ⟨rfl, rest, rfl⟩ := hcomment
      exact .longest cutComment_longest
  next hcomment =>
  split
  · next hquote =>
      rw [beq_iff_eq] at hquote
      subst hquote
      exact cutString_begins
  next hquote =>
  rw [beq_iff_eq] at hquote
  split
  · next hdigit => exact .longest (cutNumber_longest hdigit)
  next hdigit =>
  split
  · next hstart => exact .longest (cutWord_longest hstart)
  next hstart =>
  split
  · next hoperator => exact .longest (cutOperator_longest hoperator (by simpa using hcomment))
  · next hoperator =>
      refine stray_begins hquote ?_
      simp [opening, hblank, hquote, hdigit, hstart, hoperator]

theorem Partition.append_eq {segments : List Segment} (h : Partition text segments) :
    segments.flatMap (·.text) = text := by
  induction h with
  | nil => rfl
  | cons _ _ ih => rw [List.flatMap_cons, ih]

theorem ofText_partition (text : List Char) : Partition text (ofText text) := by
  match text with
  | [] =>
      rw [ofText_nil]
      exact .nil
  | first :: rest =>
      have happend := next_append first rest
      have hlength := next_remaining_length_le first rest
      have hbegins := next_begins first rest
      rw [ofText_cons, ← happend]
      rw [← happend] at hbegins
      exact .cons hbegins (ofText_partition (next first rest).2)
termination_by text.length
decreasing_by simp only [List.length_cons]; omega

theorem Begins.text_ne_nil {segment : Segment} (h : Begins text segment) : segment.text ≠ [] := by
  cases h with
  | longest hlongest => exact hlongest.form.ne_nil
  | unterminated htext => simp [htext]
  | stray => simp

theorem Partition.unique {segments segments' : List Segment} (h : Partition text segments)
    (hother : Partition text segments') : segments = segments' := by
  induction h generalizing segments' with
  | nil =>
      generalize htext : [] = text at hother
      cases hother with
      | nil => rfl
      | cons hbegins => exact absurd (List.append_eq_nil_iff.mp htext.symm).1 hbegins.text_ne_nil
  | @cons segment rest segments hbegins _ ih =>
      generalize htext : segment.text ++ rest = text at hother
      cases hother with
      | nil => exact absurd (List.append_eq_nil_iff.mp htext).1 hbegins.text_ne_nil
      | @cons segment' rest' segments' hbegins' hrest' =>
          rw [← htext] at hbegins'
          cases hbegins.unique hbegins'
          rw [List.append_right_inj] at htext
          subst htext
          rw [ih hrest']

end Treewalk.Segment
