import Treewalk.Proofs.Tree.Legible

/-!
The text of a legible tree without infinite numbers tells the tree, but for lines: its nest is that
of one such tree only.
-/

namespace Treewalk

/-- Rows with the same images are related if their entries with the same images are. -/
theorem forall₂_of_map_eq {α γ : Type} {image : α → γ} {related : α → α → Prop} {row row' : List α}
    (h : row.map image = row'.map image)
    (hrelated : ∀ entry ∈ row, ∀ entry' ∈ row', image entry = image entry' →
      related entry entry') : List.Forall₂ related row row' := by
  induction row generalizing row' with
  | nil =>
      obtain rfl := List.map_eq_nil_iff.mp h.symm
      exact .nil
  | cons first rest ih =>
      obtain ⟨first', rest', rfl, hfirst, hrest⟩ := List.map_eq_cons_iff.mp h.symm
      refine .cons (hrelated first (by simp) first' (by simp) hfirst.symm) (ih hrest.symm ?_)
      exact fun entry hentry entry' hentry' =>
        hrelated entry (.tail _ hentry) entry' (.tail _ hentry')

/-! What sort of node it is, is told by the outermost part of a nest. -/

inductive Shape where
  | nil | boolean (value : Bool) | number | string | name
  | group | unary | binary | logical | assign | call

def Constant.shape : Constant → Shape
  | nil => .nil
  | boolean value => .boolean value
  | number _ => .number
  | string _ => .string

def Expr.shape : Expr → Shape
  | constant value => value.shape
  | group _ => .group
  | unary _ _ => .unary
  | binary _ _ _ => .binary
  | logical _ _ _ => .logical
  | var _ => .name
  | assign _ _ => .assign
  | call _ _ _ => .call

def Nest.shape : Nest → Shape
  | word text =>
      if text.toList.head?.any Char.isDigit then .number
      else if text = "nil" then .nil
      else if text = "true" then .boolean true
      else if text = "false" then .boolean false
      else .name
  | quoted _ => .string
  | node head parts =>
      if head = "group" then .group
      else if head = "=" then .assign
      else if head = "call" then .call
      else if head = "or" ∨ head = "and" then .logical
      else if parts.length = 1 then .unary
      else .binary

theorem Segment.Form.head_isDigit {text : List Char} (h : Segment.Form .number text) :
    text.head?.any Char.isDigit = true := by
  cases h with
  | number hne hdigits =>
      obtain ⟨first, rest, rfl⟩ := List.exists_cons_of_ne_nil hne
      exact hdigits first (by simp)
  | fraction hne hdigits _ _ =>
      obtain ⟨first, rest, rfl⟩ := List.exists_cons_of_ne_nil hne
      exact hdigits first (by simp)

theorem Constant.Legible.shape_nest {value : Constant} (h : value.Legible)
    (hfinite : ∀ number ∈ value.numbers, number.isFinite = true) :
    value.nest.shape = value.shape := by
  cases h with
  | nil => rfl
  | boolean value => cases value <;> rfl
  | @number value hsign =>
      have hform := Number.form_text (hfinite value (by simp [numbers])) hsign
      simp [nest, Nest.shape, shape, hform.head_isDigit]
  | string => rfl

theorem Token.IsName.shape_nest {name : Token} (h : name.IsName) :
    (Nest.word name.lexeme.spelling).shape = .name := by
  have hfirst : name.lexeme.spelling.toList.head?.any Char.isDigit = false := by
    have hform := h.form
    generalize name.lexeme.spelling.toList = text at hform
    cases hform with
    | @word first rest hfirst _ =>
        have hstart : Segment.isWordStart first = true := by
          simpa [Segment.isWordStart] using hfirst
        simpa using Segment.isDigit_of_isWordStart hstart
  have hword {spelling : String} {kind : TokenKind} (hmem : (spelling, kind) ∈ keywordSpellings) :
      name.lexeme.spelling ≠ spelling := by
    intro hspelling
    exact h.not_keyword kind (hspelling ▸ hmem)
  have hnil := hword (by decide : ("nil", TokenKind.nilWord) ∈ keywordSpellings)
  have htrue := hword (by decide : ("true", TokenKind.trueWord) ∈ keywordSpellings)
  have hfalse := hword (by decide : ("false", TokenKind.falseWord) ∈ keywordSpellings)
  simp [Nest.shape, hfirst, hnil, htrue, hfalse]

namespace Expr

variable {value value' : Expr}

theorem Legible.shape_nest (h : value.Legible)
    (hfinite : ∀ number ∈ value.numbers, number.isFinite = true) :
    value.nest.shape = value.shape := by
  have hsign : ∀ kind ∈ TokenKind.signs, ∀ part, (Nest.node kind.text [part]).shape = .unary := by
    simp [TokenKind.signs, TokenKind.text, Nest.shape]
  have hoperator : ∀ kind ∈ TokenKind.operators, ∀ left right,
      (Nest.node kind.text [left, right]).shape = .binary := by
    simp [TokenKind.operators, TokenKind.text, Nest.shape]
  have hconnective : ∀ kind ∈ TokenKind.connectives, ∀ left right,
      (Nest.node kind.text [left, right]).shape = .logical := by
    simp [TokenKind.connectives, TokenKind.text, Nest.shape]
  cases h with
  | constant hvalue => exact hvalue.shape_nest hfinite
  | group | assign | call => simp [nest, Nest.shape, shape]
  | unary hkind hfixed _ =>
      rw [nest, hfixed.spelling_eq]
      exact hsign _ hkind _
  | binary _ hkind hfixed _ =>
      rw [nest, hfixed.spelling_eq]
      exact hoperator _ hkind _ _
  | logical _ hkind hfixed _ =>
      rw [nest, hfixed.spelling_eq]
      exact hconnective _ hkind _ _
  | var hname => exact hname.shape_nest

theorem Legible.shape_eq (h : value.Legible) (h' : value'.Legible)
    (hfinite : ∀ number ∈ value.numbers, number.isFinite = true)
    (hfinite' : ∀ number ∈ value'.numbers, number.isFinite = true)
    (heq : value.nest = value'.nest) : value.shape = value'.shape := by
  rw [← h.shape_nest hfinite, heq, h'.shape_nest hfinite']

end Expr

/-! What is in a nest, is told part by part. -/

theorem Constant.Legible.eq_of_nest_eq {value value' : Constant} (h : value.Legible)
    (h' : value'.Legible) (hfinite : ∀ number ∈ value.numbers, number.isFinite = true)
    (hfinite' : ∀ number ∈ value'.numbers, number.isFinite = true)
    (heq : value.nest = value'.nest) : value = value' := by
  have hshape : value.shape = value'.shape := by
    rw [← h.shape_nest hfinite, heq, h'.shape_nest hfinite']
  cases h with
  | nil =>
      cases h' with
      | nil => rfl
      | boolean | number | string => cases hshape
  | boolean value =>
      cases h' with
      | boolean value' => exact congrArg Constant.boolean (Shape.boolean.inj hshape)
      | nil | number | string => cases hshape
  | @number value hsign =>
      cases h' with
      | @number value' hsign' =>
          have htext : value.text = value'.text := by simpa [nest] using heq
          exact congrArg Constant.number (Number.eq_of_text_eq (hfinite value (by simp [numbers]))
            (hfinite' value' (by simp [numbers])) hsign hsign' htext)
      | nil | boolean | string => cases hshape
  | string _ =>
      cases h' with
      | string _ => simpa [nest] using heq
      | nil | boolean | number => cases hshape

theorem TokenKind.eq_of_text_eq :
    ∀ kind ∈ signs ++ connectives ++ operators, ∀ other ∈ signs ++ connectives ++ operators,
      kind.text = other.text → kind = other := by
  decide

theorem Token.IsFixed.readsLike_of_spelling_eq {operator operator' : Token} (h : operator.IsFixed)
    (h' : operator'.IsFixed)
    (hkind : operator.kind ∈ TokenKind.signs ++ TokenKind.connectives ++ TokenKind.operators)
    (hkind' : operator'.kind ∈ TokenKind.signs ++ TokenKind.connectives ++ TokenKind.operators)
    (hspelling : operator.lexeme.spelling = operator'.lexeme.spelling) :
    operator.ReadsLike operator' := by
  rw [h.spelling_eq, h'.spelling_eq] at hspelling
  exact h.readsLike h' (TokenKind.eq_of_text_eq _ hkind _ hkind' hspelling)

/-- Legible expressions with the same nest are the same but for lines. -/
theorem Expr.Legible.related {value value' : Expr} (h : value.Legible) (h' : value'.Legible)
    (hfinite : ∀ number ∈ value.numbers, number.isFinite = true)
    (hfinite' : ∀ number ∈ value'.numbers, number.isFinite = true)
    (heq : value.nest = value'.nest) : Expr.Related Token.ReadsLike value value' := by
  induction h generalizing value' with
  | constant hvalue =>
      have hshape := (Legible.constant hvalue).shape_eq h' hfinite hfinite' heq
      cases h' with
      | constant hvalue' =>
          rw [hvalue.eq_of_nest_eq hvalue' hfinite hfinite' heq]
          exact .constant _
      | _ => cases hvalue <;> cases hshape
  | group hinner ih =>
      have hshape := (Legible.group hinner).shape_eq h' hfinite hfinite' heq
      cases h' with
      | group hinner' =>
          simp only [nest, Nest.node.injEq, List.cons.injEq, and_true, true_and] at heq
          exact .group (ih hinner' hfinite hfinite' heq)
      | constant hvalue' => cases hvalue' <;> cases hshape
      | _ => cases hshape
  | unary hkind hfixed hoperand ih =>
      have hshape := (Legible.unary hkind hfixed hoperand).shape_eq h' hfinite hfinite' heq
      cases h' with
      | unary hkind' hfixed' hoperand' =>
          simp only [nest, Nest.node.injEq, List.cons.injEq, and_true] at heq
          have hlike := hfixed.readsLike_of_spelling_eq hfixed' (by simp [hkind])
            (by simp [hkind']) heq.1
          exact .unary hlike (ih hoperand' hfinite hfinite' heq.2)
      | constant hvalue' => cases hvalue' <;> cases hshape
      | _ => cases hshape
  | binary hleft hkind hfixed hright ihLeft ihRight =>
      have hshape := (Legible.binary hleft hkind hfixed hright).shape_eq h' hfinite hfinite' heq
      cases h' with
      | binary hleft' hkind' hfixed' hright' =>
          simp only [nest, Nest.node.injEq, List.cons.injEq, and_true] at heq
          rw [numbers, List.forall_mem_append] at hfinite hfinite'
          have hlike := hfixed.readsLike_of_spelling_eq hfixed' (by simp [hkind])
            (by simp [hkind']) heq.1
          exact .binary (ihLeft hleft' hfinite.1 hfinite'.1 heq.2.1) hlike
            (ihRight hright' hfinite.2 hfinite'.2 heq.2.2)
      | constant hvalue' => cases hvalue' <;> cases hshape
      | _ => cases hshape
  | logical hleft hkind hfixed hright ihLeft ihRight =>
      have hshape := (Legible.logical hleft hkind hfixed hright).shape_eq h' hfinite hfinite' heq
      cases h' with
      | logical hleft' hkind' hfixed' hright' =>
          simp only [nest, Nest.node.injEq, List.cons.injEq, and_true] at heq
          rw [numbers, List.forall_mem_append] at hfinite hfinite'
          have hlike := hfixed.readsLike_of_spelling_eq hfixed' (by simp [hkind])
            (by simp [hkind']) heq.1
          exact .logical (ihLeft hleft' hfinite.1 hfinite'.1 heq.2.1) hlike
            (ihRight hright' hfinite.2 hfinite'.2 heq.2.2)
      | constant hvalue' => cases hvalue' <;> cases hshape
      | _ => cases hshape
  | var hname =>
      have hshape := (Legible.var hname).shape_eq h' hfinite hfinite' heq
      cases h' with
      | var hname' =>
          simp only [nest, Nest.word.injEq] at heq
          exact .var (hname.readsLike hname' heq)
      | constant hvalue' => cases hvalue' <;> cases hshape
      | _ => cases hshape
  | assign hname hvalue ih =>
      have hshape := (Legible.assign hname hvalue).shape_eq h' hfinite hfinite' heq
      cases h' with
      | assign hname' hvalue' =>
          simp only [nest, Nest.node.injEq, Nest.word.injEq, List.cons.injEq, and_true, true_and]
            at heq
          exact .assign (hname.readsLike hname' heq.1) (ih hvalue' hfinite hfinite' heq.2)
      | constant hvalue' => cases hvalue' <;> cases hshape
      | _ => cases hshape
  | call hcallee hkind hfixed harguments ihCallee ihArguments =>
      have hshape := (Legible.call hcallee hkind hfixed harguments).shape_eq h' hfinite hfinite' heq
      cases h' with
      | call hcallee' hkind' hfixed' harguments' =>
          simp only [nest, Nest.node.injEq, List.cons.injEq, true_and, nestRow_eq_map] at heq
          rw [numbers, List.forall_mem_append, numbersRow_eq_flatMap, List.forall_mem_flatMap]
            at hfinite hfinite'
          refine .call (ihCallee hcallee' hfinite.1 hfinite'.1 heq.1)
            (hfixed.readsLike hfixed' (hkind.trans hkind'.symm)) (relatedRow_iff.mpr ?_)
          exact forall₂_of_map_eq heq.2 fun argument hmem argument' hmem' hnest =>
            ihArguments argument hmem (harguments' argument' hmem') (hfinite.2 argument hmem)
              (hfinite'.2 argument' hmem') hnest
      | constant hvalue' => cases hvalue' <;> cases hshape
      | _ => cases hshape

namespace Stmt

/-- Legible statements with the same nest are the same but for lines. -/
theorem Legible.related {statement statement' : Stmt} (h : statement.Legible)
    (h' : statement'.Legible)
    (hfinite : ∀ number ∈ statement.numbers, number.isFinite = true)
    (hfinite' : ∀ number ∈ statement'.numbers, number.isFinite = true)
    (heq : statement.nest = statement'.nest) :
    Stmt.Related Token.ReadsLike statement statement' := by
  induction h generalizing statement' with
  | expression hvalue =>
      cases h' with
      | expression hvalue' =>
          simp only [nest, Nest.node.injEq, List.cons.injEq, and_true, true_and] at heq
          exact .expression (hvalue.related hvalue' hfinite hfinite' heq)
      | _ => simp [nest] at heq
  | print hvalue =>
      cases h' with
      | print hvalue' =>
          simp only [nest, Nest.node.injEq, List.cons.injEq, and_true, true_and] at heq
          exact .print (hvalue.related hvalue' hfinite hfinite' heq)
      | _ => simp [nest] at heq
  | declare hname =>
      cases h' with
      | declare hname' =>
          simp only [nest, Nest.node.injEq, Nest.word.injEq, List.cons.injEq, and_true, true_and]
            at heq
          exact .declare (hname.readsLike hname' heq)
      | _ => simp [nest] at heq
  | declareAs hname hinitial =>
      cases h' with
      | declareAs hname' hinitial' =>
          simp only [nest, Nest.node.injEq, Nest.word.injEq, List.cons.injEq, and_true, true_and]
            at heq
          exact .declareAs (hname.readsLike hname' heq.1)
            (hinitial.related hinitial' hfinite hfinite' heq.2)
      | _ => simp [nest] at heq
  | block _ ih =>
      cases h' with
      | block hbody' =>
          simp only [nest, Nest.node.injEq, true_and, nestRow_eq_map] at heq
          rw [numbers, numbersRow_eq_flatMap, List.forall_mem_flatMap] at hfinite hfinite'
          refine .block (relatedRow_iff.mpr ?_)
          exact forall₂_of_map_eq heq fun statement hmem statement' hmem' hnest =>
            ih statement hmem (hbody' statement' hmem') (hfinite statement hmem)
              (hfinite' statement' hmem') hnest
      | _ => simp [nest] at heq
  | conditional hcondition _ ih =>
      cases h' with
      | conditional hcondition' hconsequent' =>
          simp only [nest, Nest.node.injEq, List.cons.injEq, and_true, true_and] at heq
          rw [numbers, List.forall_mem_append] at hfinite hfinite'
          exact .conditional (hcondition.related hcondition' hfinite.1 hfinite'.1 heq.1)
            (ih hconsequent' hfinite.2 hfinite'.2 heq.2)
      | _ => simp [nest] at heq
  | choice hcondition _ _ ihConsequent ihAlternative =>
      cases h' with
      | choice hcondition' hconsequent' halternative' =>
          simp only [nest, Nest.node.injEq, List.cons.injEq, and_true, true_and] at heq
          rw [numbers, List.forall_mem_append, List.forall_mem_append] at hfinite hfinite'
          exact .choice (hcondition.related hcondition' hfinite.1 hfinite'.1 heq.1)
            (ihConsequent hconsequent' hfinite.2.1 hfinite'.2.1 heq.2.1)
            (ihAlternative halternative' hfinite.2.2 hfinite'.2.2 heq.2.2)
      | _ => simp [nest] at heq
  | loop hcondition _ ih =>
      cases h' with
      | loop hcondition' hbody' =>
          simp only [nest, Nest.node.injEq, List.cons.injEq, and_true, true_and] at heq
          rw [numbers, List.forall_mem_append] at hfinite hfinite'
          exact .loop (hcondition.related hcondition' hfinite.1 hfinite'.1 heq.1)
            (ih hbody' hfinite.2 hfinite'.2 heq.2)
      | _ => simp [nest] at heq

/-- Legible statements with the same text are the same but for lines. -/
theorem Legible.related_of_text_eq {statement statement' : Stmt} (h : statement.Legible)
    (h' : statement'.Legible)
    (hfinite : ∀ number ∈ statement.numbers, number.isFinite = true)
    (hfinite' : ∀ number ∈ statement'.numbers, number.isFinite = true)
    (heq : statement.text = statement'.text) :
    Stmt.Related Token.ReadsLike statement statement' := by
  have hchars := congrArg String.toList heq
  rw [statement.toList_text, statement'.toList_text] at hchars
  exact h.related h' hfinite hfinite'
    ((h.plain hfinite).eq_of_chars_eq (h'.plain hfinite') hchars)

end Stmt

end Treewalk
