import Mathlib.Logic.Function.Basic
import Treewalk.Proofs.Lexing.Spelling

/-!
Interners and vocabularies that are used side by side. In whatever order they are asked, two
symbols are the same only if one of them made both of one text, and a vocabulary takes a symbol for
a keyword only if it made the symbol of the text of that keyword.
-/

namespace Treewalk

namespace Registry

theorem table_table (registry : Registry) (number : Nat) :
    (registry.table number).table = number := by
  unfold table
  cases hfound : registry.tables.find? (·.table == number) with
  | none => rfl
  | some names => simpa using List.find?_some hfound

/-- A symbol is made in the table of the given number, and the other tables stay as they are. -/
theorem table_intern (registry : Registry) (number : Nat) (spelling : String) (other : Nat) :
    (registry.intern number spelling).2.table other =
      if other = number then ((registry.table number).intern spelling).2
      else registry.table other := by
  have htable : ((registry.table number).intern spelling).2.table = number :=
    ((registry.table number).intern_extends spelling).table_eq.trans (registry.table_table number)
  unfold intern
  generalize (registry.table number).intern spelling = interned at htable ⊢
  obtain ⟨symbol, names⟩ := interned
  change names.table = number at htable
  change ((names :: registry.tables.filter (·.table != number)).find? (·.table == other)).getD _ = _
  by_cases heq : other = number
  · rw [if_pos heq, List.find?_cons_of_pos (by simp [heq, htable]), Option.getD_some]
  · have hothers : ∀ names ∈ registry.tables,
        decide ((names.table != number) = true ∧ (names.table == other) = true) =
          (names.table == other) := by
      intro names _
      rw [Bool.eq_iff_iff, decide_eq_true_iff, bne_iff_ne, beq_iff_eq]
      exact and_iff_right_of_imp fun htable => htable ▸ heq
    rw [if_neg heq, List.find?_cons_of_neg (by simp [htable, Ne.symm heq]), List.find?_filter,
      List.find?_congr hothers]
    rfl

end Registry

/-! Symbols of several tables -/

/-- Interners and vocabularies, each known by the number of its table. -/
structure Tables where
  registry : Registry := {}
  vocabularies : Nat → Option Vocabulary := fun _ => none

/-- A symbol with the text of which it was made, and the number of the table that was asked. -/
structure Made where
  table : Nat
  text : String
  symbol : Symbol

namespace Tables

/-- The names of the interner or the vocabulary of a number. -/
def names (tables : Tables) (number : Nat) : Names :=
  match tables.vocabularies number with
  | some vocabulary => vocabulary.names
  | none => tables.registry.table number

def set (tables : Tables) (number : Nat) (vocabulary : Vocabulary) : Tables :=
  { tables with
    vocabularies := Function.update tables.vocabularies number (some vocabulary) }

def intern (tables : Tables) (number : Nat) (text : String) : Tables :=
  { tables with registry := (tables.registry.intern number text).2 }

/-- What has been done with interners and vocabularies, in any order: symbols were made by both,
new vocabularies were opened and texts read. No number is used for two of them. -/
inductive History : Tables → List Made → List Scan → Prop
  | start : History {} [] []
  | intern {tables : Tables} {made : List Made} {scans : List Scan} {number : Nat} (text : String) :
      History tables made scans → tables.vocabularies number = none →
      History (tables.intern number text)
        (⟨number, text, (tables.registry.intern number text).1⟩ :: made) scans
  | new {tables : Tables} {made : List Made} {scans : List Scan} {number : Nat} :
      History tables made scans → tables.vocabularies number = none →
      (tables.registry.table number).spellings = [] →
      History (tables.set number (.new number)) made scans
  | symbol {tables : Tables} {made : List Made} {scans : List Scan} {number : Nat}
      {vocabulary : Vocabulary} (text : String) : History tables made scans →
      tables.vocabularies number = some vocabulary →
      History (tables.set number (vocabulary.symbol text).2)
        (⟨number, text, (vocabulary.symbol text).1⟩ :: made) scans
  | scan {tables : Tables} {made : List Made} {scans : List Scan} {number : Nat}
      {vocabulary : Vocabulary} (text : String) (diagnostics : Diagnostics) :
      History tables made scans → tables.vocabularies number = some vocabulary →
      History (tables.set number (Lexed.ofText text vocabulary diagnostics).vocabulary)
        ((Lexed.ofText text vocabulary diagnostics).tokens.map
          (fun token => ⟨number, token.lexeme.spelling, token.lexeme⟩) ++ made)
        (⟨text, diagnostics, Lexed.ofText text vocabulary diagnostics⟩ :: scans)

/-- What holds between any two steps. -/
structure Sound (tables : Tables) (made : List Made) (scans : List Scan) : Prop where
  table_eq : ∀ number, (tables.names number).table = number
  nodup : ∀ number, (tables.names number).spellings.Nodup
  valid : ∀ number vocabulary, tables.vocabularies number = some vocabulary → vocabulary.Valid
  made : ∀ entry ∈ made, (tables.names entry.table).Knows entry.symbol ∧
    entry.symbol.spelling = entry.text
  read : ∀ scan ∈ scans, ∃ vocabulary : Vocabulary, vocabulary.Valid ∧
    scan.lexed = Lexed.ofText scan.text vocabulary scan.before

variable {tables after : Tables} {made : List Made} {scans : List Scan} {number : Nat}
  {vocabulary : Vocabulary}

theorem names_of_eq_some (h : tables.vocabularies number = some vocabulary) :
    tables.names number = vocabulary.names := by
  rw [names, h]

theorem names_of_eq_none (h : tables.vocabularies number = none) :
    tables.names number = tables.registry.table number := by
  rw [names, h]

theorem vocabularies_set (tables : Tables) (number : Nat) (vocabulary : Vocabulary) (other : Nat) :
    (tables.set number vocabulary).vocabularies other =
      if other = number then some vocabulary else tables.vocabularies other :=
  Function.update_apply ..

theorem names_set (tables : Tables) (number : Nat) (vocabulary : Vocabulary) (other : Nat) :
    (tables.set number vocabulary).names other =
      if other = number then vocabulary.names else tables.names other := by
  rw [names, vocabularies_set]
  by_cases heq : other = number
  · rw [if_pos heq, if_pos heq]
  · rw [if_neg heq, if_neg heq]
    rfl

theorem names_intern (h : tables.vocabularies number = none) (text : String) (other : Nat) :
    (tables.intern number text).names other =
      if other = number then ((tables.names number).intern text).2 else tables.names other := by
  rw [names_of_eq_none h]
  cases hfound : tables.vocabularies other with
  | none =>
      have hnone : (tables.intern number text).vocabularies other = none := hfound
      rw [names_of_eq_none hnone, names_of_eq_none hfound]
      exact tables.registry.table_intern number text other
  | some vocabulary =>
      have hsome : (tables.intern number text).vocabularies other = some vocabulary := hfound
      have hne : other ≠ number := by
        intro heq
        rw [heq, h] at hfound
        contradiction
      rw [names_of_eq_some hsome, names_of_eq_some hfound, if_neg hne]

namespace Sound

theorem start : Sound {} [] [] where
  table_eq _ := rfl
  nodup _ := List.nodup_nil
  valid _ _ h := by contradiction
  made _ h := by contradiction
  read _ h := by contradiction

/-- What has been made stays while the tables grow. -/
theorem grow (h : tables.Sound made scans)
    (hextends : ∀ number, (tables.names number).Extends (after.names number))
    (hnodup : ∀ number, (after.names number).spellings.Nodup)
    (hvalid : ∀ number vocabulary, after.vocabularies number = some vocabulary →
      vocabulary.Valid) : after.Sound made scans where
  table_eq number := (hextends number).table_eq.trans (h.table_eq number)
  nodup := hnodup
  valid := hvalid
  made entry hentry := by
    obtain ⟨hknows, hspelling⟩ := h.made entry hentry
    exact ⟨hknows.mono (hextends entry.table), hspelling⟩
  read := h.read

theorem cons (h : tables.Sound made scans) {entry : Made}
    (hknows : (tables.names entry.table).Knows entry.symbol)
    (hspelling : entry.symbol.spelling = entry.text) : tables.Sound (entry :: made) scans :=
  { h with made := List.forall_mem_cons.mpr ⟨⟨hknows, hspelling⟩, h.made⟩ }

/-! One step -/

theorem intern (h : tables.Sound made scans) (hnone : tables.vocabularies number = none)
    (text : String) :
    (tables.intern number text).Sound
      (⟨number, text, (tables.registry.intern number text).1⟩ :: made) scans := by
  have hgrown : (tables.intern number text).Sound made scans := by
    apply h.grow
    · intro other
      rw [names_intern hnone]
      split
      · next heq => exact heq ▸ Names.intern_extends _ _
      · exact .refl _
    · intro other
      rw [names_intern hnone]
      split
      · exact Names.intern_nodup (h.nodup number) text
      · exact h.nodup other
    · exact h.valid
  apply hgrown.cons
  · rw [names_intern hnone, if_pos rfl, names_of_eq_none hnone]
    exact Names.intern_knows _ text
  · exact Names.intern_spelling _ text

/-- A vocabulary may take the place of one that knows less. -/
theorem set (h : tables.Sound made scans) (hvalid : vocabulary.Valid)
    (hextends : (tables.names number).Extends vocabulary.names) :
    (tables.set number vocabulary).Sound made scans := by
  apply h.grow
  · intro other
    rw [names_set]
    split
    · next heq => exact heq ▸ hextends
    · exact .refl _
  · intro other
    rw [names_set]
    split
    · exact hvalid.nodup
    · exact h.nodup other
  · intro other found hfound
    rw [vocabularies_set] at hfound
    split at hfound
    · exact Option.some.inj hfound ▸ hvalid
    · exact h.valid other found hfound

theorem new (h : tables.Sound made scans) (hnone : tables.vocabularies number = none)
    (hempty : (tables.registry.table number).spellings = []) :
    (tables.set number (.new number)).Sound made scans := by
  apply h.set (Vocabulary.new_valid number)
  have hreserved := Vocabulary.reserve_spec keywordSpellings ⟨number, []⟩ List.nodup_nil
  constructor
  · exact hreserved.1.table_eq.trans (h.table_eq number).symm
  · rw [names_of_eq_none hnone, hempty]
    exact List.nil_prefix

theorem symbol (h : tables.Sound made scans) (hsome : tables.vocabularies number = some vocabulary)
    (text : String) :
    (tables.set number (vocabulary.symbol text).2).Sound
      (⟨number, text, (vocabulary.symbol text).1⟩ :: made) scans := by
  have hextends := vocabulary.symbol_extends text
  rw [← names_of_eq_some hsome] at hextends
  apply (h.set ((h.valid _ _ hsome).symbol text) hextends).cons
  · rw [names_set, if_pos rfl]
    exact vocabulary.symbol_knows text
  · exact vocabulary.symbol_spelling text

theorem scan (h : tables.Sound made scans) (hsome : tables.vocabularies number = some vocabulary)
    (text : String) (diagnostics : Diagnostics) :
    (tables.set number (Lexed.ofText text vocabulary diagnostics).vocabulary).Sound
      ((Lexed.ofText text vocabulary diagnostics).tokens.map
        (fun token => ⟨number, token.lexeme.spelling, token.lexeme⟩) ++ made)
      (⟨text, diagnostics, Lexed.ofText text vocabulary diagnostics⟩ :: scans) := by
  have hvalid := h.valid _ _ hsome
  have hextends := Lexed.ofText_extends text vocabulary diagnostics
  rw [← names_of_eq_some hsome] at hextends
  have htwins := Lexed.ofText_twins text hvalid hvalid diagnostics
  have hgrown := h.set htwins.valid_left hextends
  refine { hgrown with made := List.forall_mem_append.mpr ⟨?_, hgrown.made⟩, read := ?_ }
  · rw [List.forall_mem_map]
    intro token htoken
    refine ⟨?_, rfl⟩
    rw [names_set, if_pos rfl]
    exact Token.knows_of_twins htwins.tokens token htoken
  · exact List.forall_mem_cons.mpr ⟨⟨vocabulary, hvalid, rfl⟩, h.read⟩

end Sound

theorem History.sound (h : History tables made scans) : tables.Sound made scans := by
  induction h with
  | start => exact .start
  | intern text _ hnone ih => exact ih.intern hnone text
  | new _ hnone hempty ih => exact ih.new hnone hempty
  | symbol text _ hsome ih => exact ih.symbol hsome text
  | scan text diagnostics _ hsome ih => exact ih.scan hsome text diagnostics

end Tables

/-! Keywords -/

theorem Vocabulary.Valid.keyword?_eq_none {vocabulary : Vocabulary} (h : vocabulary.Valid)
    {symbol : Symbol} (htable : symbol.table ≠ vocabulary.names.table) :
    vocabulary.keyword? symbol = none := by
  rw [keyword?, Option.map_eq_none_iff, List.find?_eq_none]
  intro keyword hkeyword
  rw [Bool.not_eq_true]
  apply Symbol.same_eq_false
  rw [(h.known keyword hkeyword).table_eq]
  exact htable.symm

namespace Token

/-- The tokens of a text keep names and keywords apart. -/
structure Sorted (token : Token) : Prop where
  not_keyword : token.kind = .identifier →
    ∀ kind, (token.lexeme.spelling, kind) ∉ keywordSpellings
  spelling_eq : ∀ word, (word, token.kind) ∈ keywordSpellings → token.lexeme.spelling = word

variable {token : Token}

theorem Spelled.sorted (h : token.Spelled) : token.Sorted where
  not_keyword hkind := by
    rw [Spelled, hkind] at h
    exact h.not_keyword
  spelling_eq word hmem := by
    have hkeyword : ∀ entry ∈ keywordSpellings,
        entry.1 = entry.2.text ∧ entry.2 ∉ lexical := by decide
    obtain ⟨hword, hkind⟩ := hkeyword _ hmem
    exact ((spelled_iff_isFixed hkind).mp h).spelling_eq.trans hword.symm

theorem sorted_of_isEnd (h : token.kind = .endOfText) : token.Sorted where
  not_keyword hkind := by
    rw [h] at hkind
    contradiction
  spelling_eq word hmem := by
    have hnone : ∀ entry ∈ keywordSpellings, entry.2 ≠ .endOfText := by decide
    exact absurd h (hnone _ hmem)

end Token

theorem Lexed.sorted (text : String) {vocabulary : Vocabulary} (h : vocabulary.Valid)
    (diagnostics : Diagnostics) :
    ∀ token ∈ (ofText text vocabulary diagnostics).tokens, token.Sorted := by
  obtain ⟨tokens, ending, complaints, hread, -, hending, htokens, -⟩ :=
    Lexed.ofText_reads text h diagnostics
  have hspelled := hread.spelled (Segment.ofText_partition text.toList).formed
  rw [htokens, List.forall_mem_append, List.forall_mem_singleton]
  exact ⟨fun token htoken => (hspelled token htoken).sorted, Token.sorted_of_isEnd hending.kind_eq⟩

namespace Tables.History

variable {tables : Tables} {made : List Made} {scans : List Scan}

/-- A symbol spells the text of which it was made. Two symbols are the same if one table made both
of one text. A vocabulary takes for keywords the symbols that it has made of the reserved words, so
that no name is spelled like a keyword and no keyword like another word. -/
theorem symbols_apart (h : History tables made scans) :
    (∀ entry ∈ made, entry.symbol.spelling = entry.text) ∧
    (∀ left ∈ made, ∀ right ∈ made, left.symbol.same right.symbol = true ↔
      left.table = right.table ∧ left.text = right.text) ∧
    (∀ number vocabulary, tables.vocabularies number = some vocabulary →
      ∀ entry ∈ made, ∀ kind, vocabulary.keyword? entry.symbol = some kind ↔
        entry.table = number ∧ (entry.text, kind) ∈ keywordSpellings) ∧
    ∀ scan ∈ scans, ∀ token ∈ scan.lexed.tokens, token.Sorted := by
  have hsound := h.sound
  refine ⟨fun entry hentry => (hsound.made entry hentry).2, ?_, ?_, ?_⟩
  · intro left hleft right hright
    obtain ⟨hknows, hspelling⟩ := hsound.made left hleft
    obtain ⟨hknows', hspelling'⟩ := hsound.made right hright
    by_cases htable : left.table = right.table
    · rw [← htable] at hknows'
      rw [Names.same_iff_spelling_eq (hsound.nodup _) hknows hknows', hspelling, hspelling']
      exact (and_iff_right htable).symm
    · have hne : left.symbol.table ≠ right.symbol.table := by
        rw [hknows.table_eq, hknows'.table_eq, hsound.table_eq, hsound.table_eq]
        exact htable
      rw [Symbol.same_eq_false hne]
      exact ⟨fun hsame => absurd hsame Bool.false_ne_true, fun hboth => absurd hboth.1 htable⟩
  · intro number vocabulary hsome entry hentry kind
    obtain ⟨hknows, hspelling⟩ := hsound.made entry hentry
    have hvalid := hsound.valid number vocabulary hsome
    have hnumber := names_of_eq_some hsome ▸ hsound.table_eq number
    by_cases htable : entry.table = number
    · rw [htable, names_of_eq_some hsome] at hknows
      rw [hvalid.keyword?_eq hknows, Vocabulary.keywordKind?_eq_some_iff, hspelling]
      exact (and_iff_right htable).symm
    · have hne : entry.symbol.table ≠ vocabulary.names.table := by
        rw [hknows.table_eq, hsound.table_eq, hnumber]
        exact htable
      rw [hvalid.keyword?_eq_none hne]
      exact ⟨fun hfound => absurd hfound (by simp), fun hboth => absurd hboth.1 htable⟩
  · intro scan hscan
    obtain ⟨vocabulary, hvalid, hlexed⟩ := hsound.read scan hscan
    rw [hlexed]
    exact Lexed.sorted scan.text hvalid scan.before

/-- Two vocabularies, of which one has read a text, and an interner are asked for one word. -/
theorem symbols_apart_while :
    let lexed := Lexed.ofText "while whiles" (.new 0) {}
    let own := lexed.vocabulary.symbol "while"
    let other := (Vocabulary.new 1).symbol "while"
    let loose := ({} : Registry).intern 2 "while"
    own.1.spelling = "while" ∧ own.1.same other.1 ≠ true ∧ other.1.same loose.1 ≠ true ∧
      own.2.keyword? own.1 = some .whileWord ∧ own.2.keyword? other.1 ≠ some .whileWord ∧
      other.2.keyword? loose.1 ≠ some .whileWord ∧
      lexed.tokens.map (·.kind) = [.whileWord, .identifier, .endOfText] ∧
      ∀ token ∈ lexed.tokens, token.Sorted := by
  intro lexed own other loose
  let opened : Tables := (({} : Tables).set 0 (.new 0)).set 1 (.new 1)
  have hopened : History opened [] [] := .new (.new .start rfl rfl) rfl rfl
  have hscan := History.scan "while whiles" {} hopened
    (show opened.vocabularies 0 = some (.new 0) from rfl)
  have hown := hscan.symbol "while" (show Tables.vocabularies _ 0 = some lexed.vocabulary from rfl)
  have hother := hown.symbol "while" (show Tables.vocabularies _ 1 = some (.new 1) from rfl)
  have hloose := hother.intern "while" (show Tables.vocabularies _ 2 = none from rfl)
  obtain ⟨hspelling, hsame, hkeyword, hsorted⟩ := hloose.symbols_apart
  have hkinds : lexed.tokens.map (·.kind) = [.whileWord, .identifier, .endOfText] := by
    decide +kernel
  have hmade := hsame _ (.tail _ (.head _)) _ (.head _)
  have hmade' := hsame _ (.tail _ (.tail _ (.head _))) _ (.tail _ (.head _))
  have hforeign := hkeyword 0 own.2 rfl _ (.tail _ (.head _)) .whileWord
  have hforeign' := hkeyword 1 other.2 rfl _ (.head _) .whileWord
  refine ⟨hspelling _ (.tail _ (.tail _ (.head _))), ?_, ?_, ?_, ?_, ?_, hkinds,
    hsorted _ (.head _)⟩
  · exact fun h => absurd (hmade'.mp h).1 (by decide)
  · exact fun h => absurd (hmade.mp h).1 (by decide)
  · exact (hkeyword 0 own.2 rfl _ (.tail _ (.tail _ (.head _))) .whileWord).mpr ⟨rfl, by decide⟩
  · exact fun h => absurd (hforeign.mp h).1 (by decide)
  · exact fun h => absurd (hforeign'.mp h).1 (by decide)

end Tables.History

end Treewalk
