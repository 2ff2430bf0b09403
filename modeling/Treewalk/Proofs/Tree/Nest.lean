import Treewalk.Tree.Text

/-!
Nests: what the texts of trees are made of. A nest is a word, a quoted text, or a head with further
nests behind it, all in parentheses. Words and heads hold no character that delimits them and quoted
texts hold no quote, so a text is that of one nest only.
-/

namespace Treewalk

inductive Nest where
  | word (text : String)
  | quoted (text : String)
  | node (head : String) (parts : List Nest)

namespace Nest

mutual

def chars : Nest → List Char
  | word text => text.toList
  | quoted text => '"' :: (text.toList ++ ['"'])
  | node head parts => '(' :: (head.toList ++ (charsRow parts ++ [')']))

/-- The characters of a row of nests, with a blank before each nest. -/
def charsRow : List Nest → List Char
  | [] => []
  | first :: rest => ' ' :: (first.chars ++ charsRow rest)

end

def isDelimiter (character : Char) : Bool :=
  character == ' ' || character == '(' || character == ')' || character == '"'

/-- Nothing but characters that do not delimit. -/
def Solid (text : String) : Prop :=
  ∀ character ∈ text.toList, isDelimiter character = false

instance (text : String) : Decidable (Solid text) :=
  List.decidableBAll (isDelimiter · = false) text.toList

inductive Plain : Nest → Prop
  | word {text : String} : text.toList ≠ [] → Solid text → Plain (.word text)
  | quoted {text : String} : '"' ∉ text.toList → Plain (.quoted text)
  | node {head : String} {parts : List Nest} : Solid head → (∀ part ∈ parts, Plain part) →
      Plain (.node head parts)

/-- What may follow a nest: nothing, or a blank or a parenthesis that delimits it. -/
def Ends (rest : List Char) : Prop :=
  ∀ character ∈ rest.head?, isDelimiter character = true

theorem ends_cons {first : Char} {rest : List Char} (h : isDelimiter first = true) :
    Ends (first :: rest) := by
  simpa [Ends] using h

/-- A row of characters up to the first that delimits is told by the whole. -/
theorem eq_of_append_eq {p : Char → Bool} {text text' rest rest' : List Char}
    (htext : ∀ character ∈ text, p character = false)
    (htext' : ∀ character ∈ text', p character = false)
    (hrest : ∀ character ∈ rest.head?, p character = true)
    (hrest' : ∀ character ∈ rest'.head?, p character = true) (h : text ++ rest = text' ++ rest') :
    text = text' ∧ rest = rest' := by
  have hbefore {text rest : List Char} (htext : ∀ character ∈ text, p character = false)
      (hrest : ∀ character ∈ rest.head?, p character = true) :
      (text ++ rest).takeWhile (fun character => !p character) = text := by
    rw [List.takeWhile_append_of_pos (by simpa using htext)]
    cases rest with
    | nil => simp
    | cons first rest =>
        have hfirst : p first = true := by simpa using hrest
        rw [List.takeWhile_cons_of_neg (by simp [hfirst]), List.append_nil]
  have hequal : text = text' := by rw [← hbefore htext hrest, h, hbefore htext' hrest']
  subst hequal
  exact ⟨rfl, List.append_cancel_left h⟩

theorem ends_charsRow (parts : List Nest) (rest : List Char) :
    Ends (charsRow parts ++ ')' :: rest) := by
  cases parts with
  | nil => exact ends_cons rfl
  | cons first parts =>
      rw [charsRow]
      exact ends_cons rfl

def SameSort : Nest → Nest → Prop
  | word _, word _ => True
  | quoted _, quoted _ => True
  | node _ _, node _ _ => True
  | _, _ => False

/-- Which sort of nest it is, is told by its first character. -/
theorem Plain.sameSort {nest other : Nest} (h : nest.Plain) (hother : other.Plain)
    {rest rest' : List Char} (heq : nest.chars ++ rest = other.chars ++ rest') :
    nest.SameSort other := by
  have hword {text : String} (hne : text.toList ≠ []) (hsolid : Solid text) :
      ∃ first rest, text.toList = first :: rest ∧ isDelimiter first = false := by
    obtain ⟨first, rest, htext⟩ := List.exists_cons_of_ne_nil hne
    exact ⟨first, rest, htext, hsolid first (by simp [htext])⟩
  cases h with
  | word hne hsolid =>
      obtain ⟨first, rest, htext, hfirst⟩ := hword hne hsolid
      rw [chars, htext] at heq
      cases hother with
      | word => trivial
      | quoted | node =>
          rw [chars] at heq
          obtain ⟨rfl, -⟩ := List.cons.inj heq
          contradiction
  | quoted | node =>
      rw [chars] at heq
      cases hother with
      | word hne hsolid =>
          obtain ⟨first, rest, htext, hfirst⟩ := hword hne hsolid
          rw [chars, htext] at heq
          obtain ⟨rfl, -⟩ := List.cons.inj heq
          contradiction
      | quoted | node =>
          rw [chars] at heq
          -- Either both are of one sort, or a quote and a parenthesis are the same.
          obtain ⟨hfirst, -⟩ := List.cons.inj heq
          trivial

/-- Rows of nests up to the parenthesis that closes them, if their nests are told one by one. -/
theorem eq_of_charsRow_append {parts others : List Nest}
    (hparts : ∀ part ∈ parts, ∀ {other : Nest}, other.Plain → ∀ {rest rest' : List Char},
      Ends rest → Ends rest' → part.chars ++ rest = other.chars ++ rest' →
        part = other ∧ rest = rest')
    (hothers : ∀ other ∈ others, other.Plain) {rest rest' : List Char}
    (heq : charsRow parts ++ ')' :: rest = charsRow others ++ ')' :: rest') :
    parts = others ∧ rest = rest' := by
  induction parts generalizing others with
  | nil =>
      cases others with
      | nil => exact ⟨rfl, (List.cons.inj heq).2⟩
      | cons other others =>
          rw [charsRow, charsRow] at heq
          exact absurd (List.cons.inj heq).1 (by decide)
  | cons part parts ih =>
      rw [List.forall_mem_cons] at hparts
      cases others with
      | nil =>
          rw [charsRow, charsRow] at heq
          exact absurd (List.cons.inj heq).1 (by decide)
      | cons other others =>
          rw [List.forall_mem_cons] at hothers
          rw [charsRow, charsRow, List.cons_append, List.cons_append, List.append_assoc,
            List.append_assoc] at heq
          obtain ⟨rfl, hmore⟩ := hparts.1 hothers.1 (ends_charsRow parts rest)
            (ends_charsRow others rest') (List.cons.inj heq).2
          obtain ⟨rfl, hrest⟩ := ih hparts.2 hothers.2 hmore
          exact ⟨rfl, hrest⟩

/-- A plain nest is told by any text that begins with it. -/
theorem Plain.eq_of_chars_append {nest other : Nest} (h : nest.Plain) (hother : other.Plain)
    {rest rest' : List Char} (hrest : Ends rest) (hrest' : Ends rest')
    (heq : nest.chars ++ rest = other.chars ++ rest') : nest = other ∧ rest = rest' := by
  induction h generalizing other rest rest' with
  | word hne hsolid =>
      have hsort := (Plain.word hne hsolid).sameSort hother heq
      cases hother with
      | word hne' hsolid' =>
          obtain ⟨htext, hrest⟩ := eq_of_append_eq hsolid hsolid' hrest hrest' heq
          exact ⟨congrArg Nest.word (String.toList_injective htext), hrest⟩
      | quoted | node => contradiction
  | quoted hquote =>
      have hsort := (Plain.quoted hquote).sameSort hother heq
      cases hother with
      | quoted hquote' =>
          have hbody (text : String) (h : '"' ∉ text.toList) :
              ∀ character ∈ text.toList, (character == '"') = false := by
            intro character hmem
            rw [beq_eq_false_iff_ne]
            rintro rfl
            exact h hmem
          rw [chars, chars, List.cons_append, List.cons_append, List.append_assoc,
            List.append_assoc] at heq
          obtain ⟨htext, htail⟩ := eq_of_append_eq (hbody _ hquote) (hbody _ hquote') (by simp)
            (by simp) (List.cons.inj heq).2
          exact ⟨congrArg Nest.quoted (String.toList_injective htext), (List.cons.inj htail).2⟩
      | word | node => contradiction
  | @node head parts hhead hparts ih =>
      have hsort := (Plain.node hhead hparts).sameSort hother heq
      cases hother with
      | @node head' parts' hhead' hparts' =>
          simp only [chars, List.cons_append, List.append_assoc, List.nil_append] at heq
          obtain ⟨htext, htail⟩ := eq_of_append_eq hhead hhead' (ends_charsRow parts rest)
            (ends_charsRow parts' rest') (List.cons.inj heq).2
          obtain ⟨rfl, hrest⟩ := eq_of_charsRow_append ih hparts' htail
          exact ⟨congrArg (Nest.node · parts) (String.toList_injective htext), hrest⟩
      | word | quoted => contradiction

theorem Plain.eq_of_chars_eq {nest other : Nest} (h : nest.Plain) (hother : other.Plain)
    (heq : nest.chars = other.chars) : nest = other := by
  have hends : Ends [] := by simp [Ends]
  exact (h.eq_of_chars_append hother hends hends (congrArg (· ++ []) heq)).1

end Nest

end Treewalk
