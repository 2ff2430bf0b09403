import Treewalk.Proofs.Grammar.Phrase

/-!
The steps of the parser, as what they do to the tokens still to be read and to the remarks made.
Each step has an equation for the token that it takes or leaves, and an inversion that says what
must have been read when it succeeds.
-/

namespace Treewalk

namespace Cursor

/-- The cursor as it would stand before other tokens. -/
def before (cursor : Cursor) (rest : List Token) : Cursor :=
  { cursor with rest }

def noting (cursor : Cursor) (remarks : List Remark) : Cursor :=
  remarks.foldl (fun cursor remark => cursor.report remark.token remark.error) cursor

@[simp] theorem before_self (cursor : Cursor) : cursor.before cursor.rest = cursor := rfl

@[simp] theorem rest_before (cursor : Cursor) (rest : List Token) :
    (cursor.before rest).rest = rest := rfl

@[simp] theorem before_before (cursor : Cursor) (rest others : List Token) :
    (cursor.before rest).before others = cursor.before others := rfl

@[simp] theorem failed_before (cursor : Cursor) (rest : List Token) :
    (cursor.before rest).failed = cursor.failed := rfl

@[simp] theorem noting_nil (cursor : Cursor) : cursor.noting [] = cursor := rfl

theorem noting_append (cursor : Cursor) (remarks others : List Remark) :
    cursor.noting (remarks ++ others) = (cursor.noting remarks).noting others := by
  simp [noting]

@[simp] theorem noting_before (cursor : Cursor) (remarks : List Remark) (rest : List Token) :
    (cursor.before rest).noting remarks = (cursor.noting remarks).before rest := by
  induction remarks generalizing cursor with
  | nil => rfl
  | cons remark remarks ih => exact ih (cursor.report remark.token remark.error)

theorem failed_noting (cursor : Cursor) (remarks : List Remark) :
    (cursor.noting remarks).failed = (cursor.failed || !remarks.isEmpty) := by
  induction remarks generalizing cursor with
  | nil => simp
  | cons remark remarks ih =>
      apply (ih (cursor.report remark.token remark.error)).trans
      simp [Cursor.report]

/-- From one cursor to another, tokens have been taken and remarks made. -/
structure Passes (start : Cursor) (tokens : List Token) (remarks : List Remark)
    (finish : Cursor) : Prop where
  rest_eq : start.rest = tokens ++ finish.rest
  finish_eq : finish = (start.noting remarks).before finish.rest

theorem Passes.refl (cursor : Cursor) : cursor.Passes [] [] cursor :=
  ⟨rfl, rfl⟩

theorem Passes.trans {start middle finish : Cursor} {tokens others : List Token}
    {remarks further : List Remark} (hfirst : start.Passes tokens remarks middle)
    (hsecond : middle.Passes others further finish) :
    start.Passes (tokens ++ others) (remarks ++ further) finish := by
  constructor
  · rw [hfirst.rest_eq, hsecond.rest_eq, List.append_assoc]
  · rw [hsecond.finish_eq, hfirst.finish_eq]
    simp [noting_append]

theorem Passes.report (cursor : Cursor) (token : Token) (error : GrammarError) :
    cursor.Passes [] [⟨token, error⟩] (cursor.report token error) :=
  ⟨rfl, rfl⟩

theorem Passes.failed_eq {start finish : Cursor} {tokens : List Token} {remarks : List Remark}
    (h : start.Passes tokens remarks finish) :
    finish.failed = (start.failed || !remarks.isEmpty) := by
  rw [h.finish_eq, failed_before, failed_noting]

end Cursor

namespace Parser

variable {α β : Type}

/-! Sequences of steps. -/

theorem bind_eq_of_ok {first : Parser α} {next : α → Parser β} {start middle : Cursor}
    {value : α} (h : first start = .ok value middle) :
    (first >>= next) start = next value middle := by
  simp [bind, EStateM.bind, h]

theorem ok_of_bind {first : Parser α} {next : α → Parser β} {start finish : Cursor} {result : β}
    (h : (first >>= next) start = .ok result finish) :
    ∃ value middle, first start = .ok value middle ∧ next value middle = .ok result finish := by
  cases hfirst : first start with
  | ok value middle => exact ⟨value, middle, rfl, by rwa [bind_eq_of_ok hfirst] at h⟩
  | error reason middle => simp [bind, EStateM.bind, hfirst] at h

theorem map_eq_of_ok {parser : Parser α} (change : α → β) {start finish : Cursor} {value : α}
    (h : parser start = .ok value finish) :
    (change <$> parser) start = .ok (change value) finish := by
  simp [Functor.map, EStateM.map, h]

theorem ok_of_map {parser : Parser α} {change : α → β} {start finish : Cursor} {result : β}
    (h : (change <$> parser) start = .ok result finish) :
    ∃ value, parser start = .ok value finish ∧ result = change value := by
  cases hparser : parser start with
  | ok value middle =>
      rw [map_eq_of_ok change hparser] at h
      cases h
      exact ⟨value, rfl, rfl⟩
  | error reason middle => simp [Functor.map, EStateM.map, hparser] at h

@[simp] theorem pure_apply (value : α) (cursor : Cursor) :
    (pure value : Parser α) cursor = .ok value cursor := rfl

@[simp] theorem throw_apply (reason : Interrupt) (cursor : Cursor) :
    (throw reason : Parser α) cursor = .error reason cursor := rfl

theorem exceeded_ne_ok {start finish : Cursor} {value : α} :
    (exceeded : Parser α) start ≠ .ok value finish := by
  simp [exceeded]

/-! Single steps. -/

@[simp] theorem peek_before (cursor : Cursor) (token : Token) (rest : List Token) :
    peek (cursor.before (token :: rest)) = .ok token (cursor.before (token :: rest)) := rfl

theorem ok_of_peek {start finish : Cursor} {token : Token} (h : peek start = .ok token finish) :
    start = finish ∧ ∃ rest, start.rest = token :: rest := by
  unfold peek at h
  split at h
  · contradiction
  · next first rest hrest =>
      cases h
      exact ⟨rfl, rest, hrest⟩

theorem advance_apply (cursor : Cursor) : advance cursor = .ok () cursor.advance := rfl

theorem advance_before (cursor : Cursor) {token : Token} (rest : List Token)
    (h : token.kind ≠ .endOfText) :
    advance (cursor.before (token :: rest)) = .ok () (cursor.before rest) := by
  have hend : token.isEnd = false := by simpa [Token.isEnd] using h
  rw [advance_apply]
  simp [Cursor.advance, Cursor.before, hend]

theorem fail_ne_ok {error : GrammarError} {start finish : Cursor} {value : α} :
    (fail error : Parser α) start ≠ .ok value finish := by
  intro h
  obtain ⟨token, middle, -, h⟩ := ok_of_bind h
  simp at h

theorem check_before (cursor : Cursor) (kind : TokenKind) (token : Token) (rest : List Token) :
    check kind (cursor.before (token :: rest)) =
      .ok (token.kind == kind) (cursor.before (token :: rest)) := rfl

theorem ok_of_check {kind : TokenKind} {start finish : Cursor} {found : Bool}
    (h : check kind start = .ok found finish) :
    start = finish ∧
      ∃ token rest, start.rest = token :: rest ∧ found = (token.kind == kind) := by
  obtain ⟨token, middle, hpeek, hafter⟩ := ok_of_bind h
  obtain ⟨rfl, rest, hrest⟩ := ok_of_peek hpeek
  cases hafter
  exact ⟨rfl, token, rest, hrest, rfl⟩

theorem passes_advance {start : Cursor} {token : Token} {rest : List Token}
    (hrest : start.rest = token :: rest) (h : token.kind ≠ .endOfText) :
    advance start = .ok () (start.before rest) ∧ start.Passes [token] [] (start.before rest) := by
  constructor
  · have hadvance := advance_before start rest h
    rwa [← hrest, Cursor.before_self] at hadvance
  · exact ⟨hrest, rfl⟩

theorem accept_of_mem (cursor : Cursor) {kinds : List TokenKind} {token : Token}
    (rest : List Token) (h : token.kind ∈ kinds) (hend : .endOfText ∉ kinds) :
    accept kinds (cursor.before (token :: rest)) = .ok (some token) (cursor.before rest) := by
  have hkind : token.kind ≠ .endOfText := fun heq => hend (heq ▸ h)
  rw [accept, bind_eq_of_ok (peek_before cursor token rest), if_pos (by simpa using h),
    bind_eq_of_ok (advance_before cursor rest hkind)]
  rfl

theorem accept_of_not_mem (cursor : Cursor) {kinds : List TokenKind} {token : Token}
    (rest : List Token) (h : token.kind ∉ kinds) :
    accept kinds (cursor.before (token :: rest)) =
      .ok none (cursor.before (token :: rest)) := by
  rw [accept, bind_eq_of_ok (peek_before cursor token rest), if_neg (by simpa using h)]
  rfl

theorem ok_of_accept {kinds : List TokenKind} {start finish : Cursor} {result : Option Token}
    (h : accept kinds start = .ok result finish) (hend : .endOfText ∉ kinds) :
    (∃ token, result = some token ∧ token.kind ∈ kinds ∧ start.Passes [token] [] finish) ∨
      (result = none ∧ start = finish ∧
        ∃ token rest, start.rest = token :: rest ∧ token.kind ∉ kinds) := by
  obtain ⟨token, middle, hpeek, hafter⟩ := ok_of_bind h
  obtain ⟨rfl, rest, hrest⟩ := ok_of_peek hpeek
  by_cases hmem : token.kind ∈ kinds
  · left
    have haccept := accept_of_mem start rest hmem hend
    rw [← hrest, Cursor.before_self, h] at haccept
    cases haccept
    exact ⟨token, rfl, hmem, hrest, rfl⟩
  · right
    have haccept := accept_of_not_mem start rest hmem
    rw [← hrest, Cursor.before_self, h] at haccept
    cases haccept
    exact ⟨rfl, rfl, token, rest, hrest, hmem⟩

theorem expect_before (cursor : Cursor) {kind : TokenKind} (place : String) {token : Token}
    (rest : List Token) (h : token.kind = kind) (hend : kind ≠ .endOfText) :
    expect kind place (cursor.before (token :: rest)) = .ok token (cursor.before rest) := by
  rw [expect, bind_eq_of_ok (peek_before cursor token rest), if_pos (by simpa using h),
    bind_eq_of_ok (advance_before cursor rest (h ▸ hend))]
  rfl

theorem ok_of_expect {kind : TokenKind} {place : String} {start finish : Cursor} {token : Token}
    (h : expect kind place start = .ok token finish) (hend : kind ≠ .endOfText) :
    token.kind = kind ∧ start.Passes [token] [] finish := by
  obtain ⟨first, middle, hpeek, hafter⟩ := ok_of_bind h
  obtain ⟨rfl, rest, hrest⟩ := ok_of_peek hpeek
  by_cases hkind : first.kind = kind
  · have hexpect := expect_before start place rest hkind hend
    rw [← hrest, Cursor.before_self, h] at hexpect
    cases hexpect
    exact ⟨hkind, hrest, rfl⟩
  · rw [if_neg (by simpa using hkind)] at hafter
    exact absurd hafter fail_ne_ok

end Parser

end Treewalk
