import Treewalk.Proofs.Lexing.Spacing
import Treewalk.Proofs.Number.Decimal
import Treewalk.Proofs.Parsing.Joining
import Treewalk.Proofs.Session.Reachable

/-!
A literal that is printed comes out as it was written: a string to the last byte, a natural number
to the last digit.
-/

namespace Treewalk

/-! The segments of a statement that prints a literal -/

namespace Segment

variable {first : Char} {body digits rest : List Char} {literal : Segment}

theorem next_string (h : '"' ∉ body) (rest : List Char) :
    next '"' (body ++ '"' :: rest) = (⟨.string, '"' :: (body ++ ['"'])⟩, rest) := by
  have hbody : ∀ character ∈ body, (character != '"') = true := by
    intro character hmem
    rw [bne_iff_ne]
    exact fun hquote => h (hquote ▸ hmem)
  change cutString '"' (body ++ '"' :: rest) = _
  rw [cutString, List.takeWhile_append_of_pos hbody, List.dropWhile_append_of_pos hbody,
    List.takeWhile_cons_of_neg (by decide), List.dropWhile_cons_of_neg (by decide),
    List.append_nil]

theorem next_of_isDigit (h : first.isDigit = true) (rest : List Char) :
    next first rest = cutNumber first rest := by
  have hother {other : Char} (hother : other.isDigit = false) : first ≠ other := by
    intro heq
    rw [heq, hother] at h
    contradiction
  have hblank : isBlank first = false := by
    rw [Bool.eq_false_iff]
    intro hblank
    rw [(isBlank_or_quote (.inl hblank)).1] at h
    contradiction
  have hslash : first ≠ '/' := hother (by decide)
  have hquote : first ≠ '"' := hother (by decide)
  simp [next, hblank, hslash, hquote, h]

theorem next_number (hfirst : first.isDigit = true)
    (hdigits : ∀ digit ∈ digits, digit.isDigit = true) (rest : List Char) :
    next first (digits ++ ';' :: rest) = (⟨.number, first :: digits⟩, ';' :: rest) := by
  have hsemicolon : ¬ ';'.isDigit = true := by decide
  rw [next_of_isDigit hfirst, cutNumber, List.takeWhile_append_of_pos hdigits,
    List.dropWhile_append_of_pos hdigits, List.takeWhile_cons_of_neg hsemicolon,
    List.dropWhile_cons_of_neg hsemicolon, List.append_nil]
  rfl

/-- A word, a blank, the literal and a semicolon. -/
def printing (literal : Segment) : List Segment :=
  [⟨.word, "print".toList⟩, ⟨.blank, [' ']⟩, literal, ⟨.operator .semicolon, [';']⟩]

theorem ofText_printing (h : next first rest = (literal, [';'])) :
    ofText ("print ".toList ++ first :: rest) = literal.printing := by
  have hword : next 'p' ("rint ".toList ++ first :: rest) =
      (⟨.word, "print".toList⟩, ' ' :: first :: rest) := rfl
  have hblank : next ' ' (first :: rest) = (⟨.blank, [' ']⟩, first :: rest) := rfl
  have hsemicolon : next ';' [] = (⟨.operator .semicolon, [';']⟩, []) := rfl
  change ofText ('p' :: ("rint ".toList ++ first :: rest)) = _
  rw [ofText_cons, hword, ofText_cons, hblank, ofText_cons, h, ofText_cons, hsemicolon, ofText_nil]
  rfl

theorem filter_printing {kind : TokenKind} {value : Option Literal} (h : literal.Means kind value) :
    literal.printing.filter isToken =
        [⟨.word, "print".toList⟩, literal, ⟨.operator .semicolon, [';']⟩] ∧
      literal.printing.filter isMistake = [] := by
  obtain ⟨htoken, hmistake⟩ := h.isToken
  constructor
  · rw [printing, List.filter_cons_of_pos rfl, List.filter_cons_of_neg (by decide),
      List.filter_cons_of_pos htoken, List.filter_cons_of_pos rfl, List.filter_nil]
  · rw [printing, List.filter_cons_of_neg (by decide), List.filter_cons_of_neg (by decide),
      List.filter_cons_of_neg (by simp [hmistake]), List.filter_cons_of_neg (by decide),
      List.filter_nil]

end Segment

namespace Literal

/-- The value that a literal has in a tree. -/
def constant : Literal → Constant
  | number value => .number value
  | string value => .string value

variable {literal : Literal} {token : Token}

theorem writtenAs_constant (hkind : token.kind = .number ∨ token.kind = .string)
    (hliteral : token.literal = some literal) : literal.constant.WrittenAs token := by
  cases literal with
  | number value => exact .number hkind hliteral
  | string value => exact .string hkind hliteral

theorem kind_of_means {segment : Segment} {kind : TokenKind}
    (h : segment.Means kind (some literal)) : kind = .number ∨ kind = .string := by
  cases h with
  | string => exact .inr rfl
  | number => exact .inl rfl

end Literal

theorem Listing.wellFormed_print {keyword token semicolon : Token} {value : Constant}
    (hkeyword : keyword.kind = .printWord) (hvalue : value.WrittenAs token)
    (hsemicolon : semicolon.kind = .semicolon) :
    Listing.WellFormed [.print keyword (.constant token value) semicolon] where
  fits := by
    have hfits : (Phrase.constant token value).Fits .assignment := by
      iterate 9 apply Phrase.Fits.tighter
      exact .constant hvalue
    rw [List.forall_mem_singleton]
    exact .statement (.print hkeyword hfits hsemicolon)
  strict := by simp [Clause.StrictRow, Clause.Strict, Phrase.Strict]
  nearest := by simp [Clause.NearestRow, Clause.Nearest]

namespace Interpreter

theorem writeLine_of_room {world : World} (h : world.output.room = none) (value : Value) :
    Run.writeLine value world = .ok () { world with
      output := ⟨world.output.written ++ (value.text ++ "\n").toUTF8, none⟩ } := by
  unfold Run.writeLine Output.writeLine Output.write
  rw [h]

/-- A run that ends well after a line of text has been written, and changes nothing else. -/
structure Prints (rounds : Nat) (interpreter : Interpreter) (source text : String) : Prop where
  result_eq : (interpreter.run rounds source).1 = .ok ()
  world_eq : (interpreter.run rounds source).2.world = { interpreter.world with
    output := ⟨interpreter.written ++ (text ++ "\n").toUTF8, none⟩ }

variable {interpreter : Interpreter} {source : String} {segment : Segment} {kind : TokenKind}
  {literal : Literal}

theorem parse_printing (h : interpreter.vocabulary.Valid)
    (hsource : Segment.ofText source.toList = segment.printing)
    (hmeans : segment.Means kind (some literal)) :
    (interpreter.parse source).1 = .ok [.print (.constant literal.constant)] := by
  obtain ⟨tokens, complaints, hread, haccept⟩ := interpreter.exists_read h source
  obtain ⟨htokens, hcomplaints⟩ := hread.yields
  obtain ⟨hrow, hmistakes⟩ := Segment.filter_printing hmeans
  rw [hsource, hrow] at htokens
  rw [hsource, hmistakes] at hcomplaints
  obtain ⟨keyword, _, ⟨_, hkeyword⟩, hrest, rfl⟩ := List.forall₂_cons_left_iff.mp htokens
  obtain ⟨token, _, ⟨_, htoken⟩, hlast, rfl⟩ := List.forall₂_cons_left_iff.mp hrest
  obtain ⟨semicolon, _, ⟨_, hsemicolon⟩, hnone, rfl⟩ := List.forall₂_cons_left_iff.mp hlast
  obtain rfl := List.forall₂_nil_left_iff.mp hnone
  have hword : Segment.Means ⟨.word, "print".toList⟩ .printWord none := .keyword (by decide)
  obtain ⟨hkind, hliteral⟩ := htoken.means.unique hmeans
  have hlisting := Listing.wellFormed_print (hkeyword.means.unique hword).1
    (Literal.writtenAs_constant (hkind ▸ Literal.kind_of_means hmeans) hliteral)
    (hsemicolon.means.unique .operator).1
  exact haccept _ hlisting rfl (List.eq_nil_of_length_eq_zero hcomplaints)

theorem prints_of_means (h : interpreter.vocabulary.Valid)
    (hroom : interpreter.world.output.room = none) (rounds : Nat)
    (hsource : Segment.ofText source.toList = segment.printing)
    (hmeans : segment.Means kind (some literal)) :
    interpreter.Prints rounds source (Value.ofConstant literal.constant).text := by
  have hparse := parse_printing h hsource hmeans
  have hroom' : (interpreter.parse source).2.world.output.room = none := by
    rwa [world_parse]
  have hrun (echo : Bool) : Program.run rounds echo [.print (.constant literal.constant)] =
      Run.writeLine (Value.ofConstant literal.constant) := by
    cases echo <;> rfl
  have hexecute := run_of_parse_ok hparse rounds
  rw [execute, hrun, writeLine_of_room hroom'] at hexecute
  constructor
  · rw [hexecute]
  · rw [hexecute, world_parse]
    rfl

theorem prints_string (h : interpreter.vocabulary.Valid)
    (hroom : interpreter.world.output.room = none) (rounds : Nat) {text : String}
    (hquote : '"' ∉ text.toList) :
    interpreter.Prints rounds ("print \"" ++ text ++ "\";") text := by
  have hsource : ("print \"" ++ text ++ "\";").toList =
      "print ".toList ++ '"' :: (text.toList ++ ['"', ';']) := by simp
  have hsegments := Segment.ofText_printing (Segment.next_string hquote [';'])
  rw [← hsource] at hsegments
  have hprints := prints_of_means h hroom rounds hsegments .string
  rwa [Literal.constant, Value.ofConstant, Value.text, String.ofList_toList] at hprints

theorem prints_natural (h : interpreter.vocabulary.Valid)
    (hroom : interpreter.world.output.room = none) (rounds : Nat) {digits : List Char}
    (hne : digits ≠ []) (hdigits : ∀ digit ∈ digits, digit.isDigit = true)
    (hbound : Numeral.ofDigits digits < Nat.pow 2 53) :
    interpreter.Prints rounds ("print " ++ String.ofList digits ++ ";")
      (String.ofList (Numeral.withoutLeadingZeros digits)) := by
  have hread := Numeral.read?_whole hdigits hne
  have htext := Number.text_of_natural hbound
  rw [Numeral.toDigits_eq_withoutLeadingZeros hdigits] at htext
  obtain ⟨first, others, rfl⟩ := List.exists_cons_of_ne_nil hne
  have hsource : ("print " ++ String.ofList (first :: others) ++ ";").toList =
      "print ".toList ++ first :: (others ++ [';']) := by simp
  obtain ⟨hfirst, hothers⟩ := List.forall_mem_cons.mp hdigits
  have hsegments := Segment.ofText_printing (Segment.next_number hfirst hothers [])
  rw [← hsource] at hsegments
  have hprints := prints_of_means h hroom rounds hsegments (.number hread)
  rwa [Literal.constant, Value.ofConstant, Value.text, htext] at hprints

/-- A string is printed as it stands between its quotes, whatever else it contains, and a natural
number without the zeros with which it may begin. -/
theorem run_print_literal (h : interpreter.Reachable)
    (hroom : interpreter.world.output.room = none) (rounds : Nat) :
    (∀ text : String, '"' ∉ text.toList →
      interpreter.Prints rounds ("print \"" ++ text ++ "\";") text) ∧
    ∀ digits : List Char, digits ≠ [] → (∀ digit ∈ digits, digit.isDigit = true) →
      Numeral.ofDigits digits < Nat.pow 2 53 →
      interpreter.Prints rounds ("print " ++ String.ofList digits ++ ";")
        (String.ofList (Numeral.withoutLeadingZeros digits)) := by
  constructor
  · intro text hquote
    exact prints_string h.sound.valid hroom rounds hquote
  · intro digits hne hdigits hbound
    exact prints_natural h.sound.valid hroom rounds hne hdigits hbound

/-- Backslashes, two slashes, newlines and a character of two bytes; and two zeros too many. -/
theorem run_print_literal_slashes :
    let interpreter : Interpreter :=
      { new 0 {} ⟨fun _ => .zero, 0⟩ with interactive := true }
    interpreter.Reachable ∧ interpreter.world.output.room = none ∧
      interpreter.Prints 0 "print \"a\\n // é\r\n\n\";" "a\\n // é\r\n\n" ∧
      (interpreter.run 0 "print \"a\\n // é\r\n\n\";").2.written.data =
        #[97, 92, 110, 32, 47, 47, 32, 195, 169, 13, 10, 10, 10] ∧
      interpreter.Prints 0 "print 007;" "7" := by
  intro interpreter
  have hreachable : interpreter.Reachable := .listen true (.new 0 {} _)
  have hroom : interpreter.world.output.room = none := rfl
  obtain ⟨hstrings, hnaturals⟩ := run_print_literal hreachable hroom 0
  have hstring := hstrings "a\\n // é\r\n\n" (by decide)
  have hnatural := hnaturals ['0', '0', '7'] (by decide) (by simp) (by decide)
  have hseven : String.ofList (Numeral.withoutLeadingZeros ['0', '0', '7']) = "7" := by decide
  have hsource : "print " ++ String.ofList ['0', '0', '7'] ++ ";" = "print 007;" := by decide
  rw [hsource, hseven] at hnatural
  have hbytes : (ByteArray.empty ++ ("a\\n // é\r\n\n" ++ "\n").toUTF8).data =
      #[97, 92, 110, 32, 47, 47, 32, 195, 169, 13, 10, 10, 10] := by decide +kernel
  have hwritten := congrArg (·.output.written.data) hstring.world_eq
  exact ⟨hreachable, hroom, hstring, hwritten.trans hbytes, hnatural⟩

end Interpreter

end Treewalk
