import Mathlib.Data.List.Find
import Treewalk.Vocabulary

/-!
Symbols that one table made are the same exactly when they are spelled alike, and they stay as
they are while the table grows. In a vocabulary, whether a word is a keyword depends on its
spelling alone.
-/

namespace Treewalk

namespace Symbol

variable {name other : Symbol}

theorem same_eq_false (h : name.table ≠ other.table) : name.same other = false := by
  rw [Bool.eq_false_iff, ne_eq, same_iff]
  exact fun hsame => h hsame.1

theorem same_comm (name other : Symbol) : name.same other = other.same name := by
  rw [Bool.eq_iff_iff, same_iff, same_iff]
  exact and_congr eq_comm eq_comm

theorem same_congr (h : name.same other = true) (third : Symbol) :
    third.same name = third.same other := by
  rw [same_iff] at h
  rw [same, same, h.1, h.2]

end Symbol

namespace Names

structure Knows (names : Names) (symbol : Symbol) : Prop where
  table_eq : symbol.table = names.table
  spelling_eq : names.spellings[symbol.place]? = some symbol.spelling

structure Extends (names later : Names) : Prop where
  table_eq : later.table = names.table
  spellings_isPrefix : names.spellings <+: later.spellings

variable {names later : Names} {left right symbol : Symbol}

theorem Extends.refl (names : Names) : names.Extends names :=
  ⟨rfl, List.prefix_refl _⟩

theorem Extends.trans {last : Names} (hfirst : names.Extends later) (hsecond : later.Extends last) :
    names.Extends last :=
  ⟨hsecond.table_eq.trans hfirst.table_eq,
    hfirst.spellings_isPrefix.trans hsecond.spellings_isPrefix⟩

theorem Knows.mono (h : names.Knows symbol) (hextends : names.Extends later) :
    later.Knows symbol := by
  obtain ⟨others, hothers⟩ := hextends.spellings_isPrefix
  obtain ⟨hplace, -⟩ := List.getElem?_eq_some_iff.mp h.spelling_eq
  refine ⟨h.table_eq.trans hextends.table_eq.symm, ?_⟩
  rw [← hothers, List.getElem?_append_left hplace]
  exact h.spelling_eq

/-- Symbols of one table are the same exactly when they are spelled alike. -/
theorem same_iff_spelling_eq (hnodup : names.spellings.Nodup) (hleft : names.Knows left)
    (hright : names.Knows right) : left.same right = true ↔ left.spelling = right.spelling := by
  rw [Symbol.same_iff]
  constructor
  · rintro ⟨-, hplace⟩
    have hspelling := hleft.spelling_eq
    rw [hplace, hright.spelling_eq, Option.some.injEq] at hspelling
    exact hspelling.symm
  · intro hspelling
    refine ⟨hleft.table_eq.trans hright.table_eq.symm, ?_⟩
    obtain ⟨hplace, hat⟩ := List.getElem?_eq_some_iff.mp hleft.spelling_eq
    obtain ⟨hplace', hat'⟩ := List.getElem?_eq_some_iff.mp hright.spelling_eq
    exact (List.getElem_inj hnodup).mp (by rw [hat, hat', hspelling])

theorem intern_knows (names : Names) (spelling : String) :
    (names.intern spelling).2.Knows (names.intern spelling).1 := by
  unfold intern
  split
  · next place hplace =>
      obtain ⟨hlt, hat, -⟩ := List.findIdx?_eq_some_iff_getElem.mp hplace
      refine ⟨rfl, ?_⟩
      rw [List.getElem?_eq_getElem hlt]
      simpa using hat
  · exact ⟨rfl, by simp⟩

theorem intern_extends (names : Names) (spelling : String) :
    names.Extends (names.intern spelling).2 := by
  unfold intern
  split
  · exact .refl names
  · exact ⟨rfl, List.prefix_append _ _⟩

@[simp] theorem intern_spelling (names : Names) (spelling : String) :
    (names.intern spelling).1.spelling = spelling := by
  unfold intern
  split <;> rfl

theorem intern_nodup (hnodup : names.spellings.Nodup) (spelling : String) :
    (names.intern spelling).2.spellings.Nodup := by
  unfold intern
  split
  · exact hnodup
  · next habsent =>
      have hnot : spelling ∉ names.spellings := by
        intro hmem
        have hfound := List.findIdx?_eq_none_iff.mp habsent spelling hmem
        simp at hfound
      refine List.nodup_append.mpr ⟨hnodup, by simp, ?_⟩
      intro first hfirst second hsecond
      rw [List.mem_singleton] at hsecond
      rintro rfl
      exact hnot (hsecond ▸ hfirst)

end Names

namespace Vocabulary

def keywordKind? (spelling : String) : Option TokenKind :=
  (keywordSpellings.find? (·.1 == spelling)).map (·.2)

/-- The table keeps each spelling once, and its keywords are the reserved spellings. -/
structure Valid (vocabulary : Vocabulary) : Prop where
  nodup : vocabulary.names.spellings.Nodup
  keywords_eq :
    vocabulary.keywords.map (fun keyword => (keyword.1.spelling, keyword.2)) = keywordSpellings
  known : ∀ keyword ∈ vocabulary.keywords, vocabulary.names.Knows keyword.1

theorem reserve_spec (words : List (String × TokenKind)) (names : Names)
    (hnodup : names.spellings.Nodup) :
    names.Extends (reserve words names).names ∧ (reserve words names).names.spellings.Nodup ∧
      (reserve words names).keywords.map (fun keyword => (keyword.1.spelling, keyword.2)) =
        words ∧
      ∀ keyword ∈ (reserve words names).keywords,
        (reserve words names).names.Knows keyword.1 := by
  induction words generalizing names with
  | nil => exact ⟨.refl names, hnodup, rfl, by simp [reserve]⟩
  | cons word words ih =>
      obtain ⟨hextends, hrest, hkeywords, hknown⟩ := ih _ (names.intern_nodup hnodup word.1)
      refine ⟨(names.intern_extends word.1).trans hextends, hrest, ?_, ?_⟩
      · simp [reserve, hkeywords]
      · intro keyword hkeyword
        rcases List.mem_cons.mp hkeyword with rfl | hkeyword
        · exact (names.intern_knows word.1).mono hextends
        · exact hknown keyword hkeyword

theorem new_valid (table : Nat) : (new table).Valid := by
  obtain ⟨-, hnodup, hkeywords, hknown⟩ :=
    reserve_spec keywordSpellings ⟨table, []⟩ List.nodup_nil
  exact ⟨hnodup, hkeywords, hknown⟩

variable {vocabulary : Vocabulary}

theorem symbol_extends (vocabulary : Vocabulary) (spelling : String) :
    vocabulary.names.Extends (vocabulary.symbol spelling).2.names :=
  vocabulary.names.intern_extends spelling

theorem symbol_knows (vocabulary : Vocabulary) (spelling : String) :
    (vocabulary.symbol spelling).2.names.Knows (vocabulary.symbol spelling).1 :=
  vocabulary.names.intern_knows spelling

@[simp] theorem symbol_spelling (vocabulary : Vocabulary) (spelling : String) :
    (vocabulary.symbol spelling).1.spelling = spelling :=
  vocabulary.names.intern_spelling spelling

theorem Valid.symbol (h : vocabulary.Valid) (spelling : String) :
    (vocabulary.symbol spelling).2.Valid where
  nodup := vocabulary.names.intern_nodup h.nodup spelling
  keywords_eq := h.keywords_eq
  known keyword hkeyword := (h.known keyword hkeyword).mono (vocabulary.symbol_extends spelling)

/-- Which keyword a symbol is depends on its spelling alone. -/
theorem Valid.keyword?_eq (h : vocabulary.Valid) {symbol : Symbol}
    (hknows : vocabulary.names.Knows symbol) :
    vocabulary.keyword? symbol = keywordKind? symbol.spelling := by
  have hsame : ∀ keyword ∈ vocabulary.keywords,
      keyword.1.same symbol = (keyword.1.spelling == symbol.spelling) := by
    intro keyword hkeyword
    rw [Bool.eq_iff_iff, beq_iff_eq]
    exact Names.same_iff_spelling_eq h.nodup (h.known keyword hkeyword) hknows
  rw [keyword?, List.find?_congr hsame, keywordKind?, ← h.keywords_eq, List.find?_map,
    Option.map_map]
  rfl

end Vocabulary

end Treewalk
