import Treewalk.Proofs.Grammar.Language
import Treewalk.Proofs.Parsing.Steps

/-!
Parsers that take nothing in vain. A parser is viable for a language when the tokens that it takes
are in the language, or, if it ends at a token with an error, can be continued to tokens in the
language. What lies behind the token at which a parser stops makes no difference to it.

Bounds make no difference either, as long as they are not used up: statements are about families
of parsers whose members differ in their bounds and all do the same.
-/

namespace Treewalk

open Computability
open Token (ofKinds)

/-- The errors that end the declaration in which they occur. -/
def GrammarError.aborts : GrammarError → Bool
  | expectedToken _ _ | expectedExpression | expectedVariableName => true
  | invalidAssignmentTarget | tooManyArguments => false

instance : Nonempty Token :=
  ⟨⟨.endOfText, ⟨0, 0, ""⟩, none, 1⟩⟩

instance : Nonempty Expr :=
  ⟨.constant .nil⟩

instance : Nonempty Stmt :=
  ⟨.block []⟩

namespace Parser

/-- Tokens are taken, up to the next one, and remarks are made that end nothing. -/
structure Takes (tokens taken : List Token) (next : Token) (rest : List Token)
    (remarks : List Remark) : Prop where
  tokens_eq : tokens = taken ++ next :: rest
  isEnd_eq : ∀ token ∈ taken, token.isEnd = false
  mild : ∀ remark ∈ remarks, remark.error.aborts = false

namespace Takes

variable {tokens taken others rest after : List Token} {next last : Token}
  {remarks further : List Remark}

theorem refl (next : Token) (rest : List Token) : Takes (next :: rest) [] next rest [] :=
  ⟨rfl, by simp, by simp⟩

theorem trans (h : Takes tokens taken next rest remarks)
    (hother : Takes (next :: rest) others last after further) :
    Takes tokens (taken ++ others) last after (remarks ++ further) where
  tokens_eq := by rw [h.tokens_eq, hother.tokens_eq, List.append_assoc]
  isEnd_eq := by simpa [or_imp, forall_and] using ⟨h.isEnd_eq, hother.isEnd_eq⟩
  mild := by simpa [or_imp, forall_and] using ⟨h.mild, hother.mild⟩

theorem exists_end (h : Takes tokens taken next rest remarks)
    (hend : ∃ token ∈ tokens, token.isEnd = true) :
    ∃ token ∈ next :: rest, token.isEnd = true := by
  obtain ⟨token, hmem, htoken⟩ := hend
  rw [h.tokens_eq, List.mem_append] at hmem
  rcases hmem with hmem | hmem
  · simp [h.isEnd_eq token hmem] at htoken
  · exact ⟨token, hmem, htoken⟩

theorem length_eq (h : Takes tokens taken next rest remarks) :
    tokens.length = taken.length + (next :: rest).length := by
  rw [h.tokens_eq, List.length_append]

theorem exists_cons {token : Token} (h : Takes (token :: rest) taken last after remarks)
    (behind : List Token) : ∃ between, taken ++ last :: behind = token :: between := by
  have heq := h.tokens_eq
  cases taken with
  | nil =>
      rw [List.nil_append, List.cons.injEq] at heq
      exact ⟨behind, by rw [heq.1, List.nil_append]⟩
  | cons first others =>
      rw [List.cons_append, List.cons.injEq] at heq
      exact ⟨others ++ last :: behind, by rw [heq.1, List.cons_append]⟩

end Takes

variable {ι α β : Type}

/-- What one step leaves under the cursor, the next one finds there. -/
theorem Takes.bind_eq {others rest after : List Token} {next last : Token} {remarks : List Remark}
    (h : Takes (next :: rest) others last after remarks) {first : Parser α} {second : α → Parser β}
    {start finish : Cursor} {taken : List Token} {value : α}
    (hfirst : ∀ behind, first (start.before (taken ++ next :: behind)) =
      .ok value (finish.before (next :: behind))) (behind : List Token) :
    (first >>= second) (start.before (taken ++ others ++ last :: behind)) =
      second value (finish.before (others ++ last :: behind)) := by
  obtain ⟨between, hbetween⟩ := h.exists_cons behind
  rw [List.append_assoc, hbetween, bind_eq_of_ok (hfirst between)]

/-- What the parsers of a family do before some tokens, one like the other. -/
inductive Answers (language : Language Token) (parser : ι → Parser α) (tokens : List Token) :
    Prop where
  | reads {taken rest : List Token} {next : Token} {remarks : List Remark} (value : α) :
      Takes tokens taken next rest remarks → taken ∈ language →
      (∀ i (cursor : Cursor) behind, parser i (cursor.before (taken ++ next :: behind)) =
        .ok value ((cursor.noting remarks).before (next :: behind))) →
      Answers language parser tokens
  | aborts {taken rest : List Token} {next : Token} {remarks : List Remark}
      (error : GrammarError) : Takes tokens taken next rest remarks →
      (∃ more, taken ++ more ∈ language) → error.aborts = true →
      (∀ i (cursor : Cursor) behind, parser i (cursor.before (taken ++ next :: behind)) =
        .error (.abort next error) ((cursor.noting remarks).before (next :: behind))) →
      Answers language parser tokens

/-- The parsers of a family take nothing in vain from tokens up to some number that have an end. -/
structure Viable (limit : Nat) (language : Language Token) (parser : ι → Parser α) : Prop where
  exists_mem : ∃ tokens, tokens ∈ language
  answers : ∀ tokens : List Token, (∃ token ∈ tokens, token.isEnd = true) →
    tokens.length ≤ limit → Answers language parser tokens

namespace Answers

variable {language other : Language Token} {parser : ι → Parser α} {tokens rest : List Token}
  {token : Token}

theorem mono (h : Answers language parser tokens) (hle : language ≤ other) :
    Answers other parser tokens := by
  cases h with
  | reads value htakes hmem hread => exact .reads value htakes (hle hmem) hread
  | aborts error htakes hmore haborts hread =>
      exact .aborts error htakes (hmore.imp fun _ hmem => hle hmem) haborts hread

/-- Parsers that do the same before a token do the same before all that begins with it. -/
theorem congr {like : ι → Parser α} (h : Answers language like (token :: rest))
    (heq : ∀ i (cursor : Cursor) behind, parser i (cursor.before (token :: behind)) =
      like i (cursor.before (token :: behind))) : Answers language parser (token :: rest) := by
  cases h with
  | reads value htakes hmem hread =>
      refine .reads value htakes hmem ?_
      intro i cursor behind
      obtain ⟨between, hbetween⟩ := htakes.exists_cons behind
      rw [hbetween, heq, ← hbetween, hread]
  | aborts error htakes hmore haborts hread =>
      refine .aborts error htakes hmore haborts ?_
      intro i cursor behind
      obtain ⟨between, hbetween⟩ := htakes.exists_cons behind
      rw [hbetween, heq, ← hbetween, hread]

end Answers

namespace Viable

variable {limit lower : Nat} {language other : Language Token}

theorem mono {parser : ι → Parser α} (h : Viable limit language parser)
    (hle : language ≤ other) : Viable limit other parser where
  exists_mem := h.exists_mem.imp fun _ hmem => hle hmem
  answers tokens hend hlength := (h.answers tokens hend hlength).mono hle

theorem of_le {parser : ι → Parser α} (h : Viable limit language parser) (hle : lower ≤ limit) :
    Viable lower language parser :=
  ⟨h.exists_mem, fun tokens hend hlength => h.answers tokens hend (hlength.trans hle)⟩

theorem zero {parser : ι → Parser α} (h : ∃ tokens, tokens ∈ language) :
    Viable 0 language parser where
  exists_mem := h
  answers tokens hend hlength := by
    obtain ⟨token, hmem, -⟩ := hend
    rw [List.eq_nil_of_length_eq_zero (Nat.le_zero.mp hlength)] at hmem
    contradiction

/-! Sequences of steps. -/

theorem pure (value : α) : Viable limit 1 fun _ : ι => (Pure.pure value : Parser α) where
  exists_mem := ⟨[], rfl⟩
  answers tokens hend _ := by
    obtain ⟨next, rest, rfl⟩ : ∃ next rest, tokens = next :: rest := by
      obtain ⟨token, hmem, -⟩ := hend
      exact List.exists_cons_of_ne_nil (List.ne_nil_of_mem hmem)
    exact .reads value (.refl next rest) rfl fun _ _ _ => rfl

/-- A step and then another, which has fewer tokens before it if the first takes any. -/
theorem bind_of_length [Nonempty α] {first : ι → Parser α} {next : ι → α → Parser β}
    (hfirst : Viable limit language first)
    (hnext : ∀ value, Viable lower other fun i => next i value)
    (hlimit : ∀ tokens ∈ language, limit ≤ tokens.length + lower) :
    Viable limit (language * other) fun i => first i >>= next i where
  exists_mem := by
    obtain ⟨tokens, hmem⟩ := hfirst.exists_mem
    obtain ⟨others, hothers⟩ := (hnext (Classical.arbitrary α)).exists_mem
    exact ⟨_, Language.append_mem_mul hmem hothers⟩
  answers tokens hend hlength := by
    cases hfirst.answers tokens hend hlength with
    | @reads taken rest token remarks value htakes hmem hread =>
        have hlower := hlimit taken hmem
        have hrest := htakes.length_eq
        cases (hnext value).answers _ (htakes.exists_end hend) (by omega) with
        | reads result htakes' hmem' hread' =>
            refine .reads result (htakes.trans htakes') (Language.append_mem_mul hmem hmem') ?_
            intro i cursor behind
            rw [htakes'.bind_eq (hread i cursor), hread', Cursor.noting_append]
        | aborts error htakes' hmore haborts hread' =>
            obtain ⟨more, hmore⟩ := hmore
            refine .aborts error (htakes.trans htakes') ⟨more, ?_⟩ haborts ?_
            · rw [List.append_assoc]
              exact Language.append_mem_mul hmem hmore
            · intro i cursor behind
              rw [htakes'.bind_eq (hread i cursor), hread', Cursor.noting_append]
    | aborts error htakes hmore haborts hread =>
        obtain ⟨more, hmore⟩ := hmore
        obtain ⟨others, hothers⟩ := (hnext (Classical.arbitrary α)).exists_mem
        refine .aborts error htakes ⟨more ++ others, ?_⟩ haborts ?_
        · rw [← List.append_assoc]
          exact Language.append_mem_mul hmore hothers
        · intro i cursor behind
          simp [Bind.bind, EStateM.bind, hread]

theorem bind [Nonempty α] {first : ι → Parser α} {next : ι → α → Parser β}
    (hfirst : Viable limit language first)
    (hnext : ∀ value, Viable limit other fun i => next i value) :
    Viable limit (language * other) fun i => first i >>= next i :=
  hfirst.bind_of_length hnext fun _ _ => Nat.le_add_left _ _

theorem bind_of_nil_not_mem [Nonempty α] {first : ι → Parser α} {next : ι → α → Parser β}
    (hfirst : Viable (limit + 1) language first)
    (hnext : ∀ value, Viable limit other fun i => next i value) (h : [] ∉ language) :
    Viable (limit + 1) (language * other) fun i => first i >>= next i := by
  refine hfirst.bind_of_length hnext fun tokens hmem => ?_
  have hlength : 0 < tokens.length := List.length_pos_iff.mpr fun hnil => h (hnil ▸ hmem)
  omega

theorem map [Nonempty α] {parser : ι → Parser α} (h : Viable limit language parser)
    (change : α → β) : Viable limit language fun i => change <$> parser i := by
  have hpure (value : α) : Viable limit 1 fun _ : ι => (Pure.pure (change value) : Parser β) :=
    .pure (change value)
  have hbind := h.bind hpure
  rw [mul_one] at hbind
  exact hbind

/-! Single steps. -/

variable {parser : ι → Parser α}

theorem of_first (hlanguage : ∃ tokens, tokens ∈ language)
    (h : ∀ token rest, (∃ other ∈ token :: rest, other.isEnd = true) → rest.length < limit →
      Answers language parser (token :: rest)) : Viable limit language parser where
  exists_mem := hlanguage
  answers tokens hend hlength := by
    cases tokens with
    | nil => simp at hend
    | cons token rest => exact h token rest hend hlength

/-- A token is taken; what follows it is read by other parsers. -/
theorem answers_cons {others : ι → Parser α} (h : Viable limit other others) {token : Token}
    {rest : List Token} (hend : ∃ last ∈ token :: rest, last.isEnd = true)
    (hlength : rest.length ≤ limit) (hplain : token.isEnd = false) (hmem : [token] ∈ language)
    (heq : ∀ i (cursor : Cursor) behind, parser i (cursor.before (token :: behind)) =
      others i (cursor.before behind)) : Answers (language * other) parser (token :: rest) := by
  have hend : ∃ last ∈ rest, last.isEnd = true := by simpa [hplain] using hend
  have hlead {taken after : List Token} {next : Token} {remarks : List Remark}
      (htakes : Takes rest taken next after remarks) :
      Takes (token :: rest) (token :: taken) next after remarks :=
    ⟨by rw [htakes.tokens_eq, List.cons_append], by simpa [hplain] using htakes.isEnd_eq,
      htakes.mild⟩
  cases h.answers rest hend hlength with
  | reads value htakes hothers hread =>
      refine .reads value (hlead htakes) (Language.append_mem_mul hmem hothers) ?_
      intro i cursor behind
      rw [List.cons_append, heq, hread]
  | aborts error htakes hmore haborts hread =>
      obtain ⟨more, hmore⟩ := hmore
      have hmore := Language.append_mem_mul hmem hmore
      refine .aborts error (hlead htakes) ⟨more, hmore⟩ haborts ?_
      intro i cursor behind
      rw [List.cons_append, heq, hread]

theorem answers_advance {others : ι → Parser α} (h : Viable limit other others) {token : Token}
    {rest : List Token} (hend : ∃ last ∈ token :: rest, last.isEnd = true)
    (hlength : rest.length ≤ limit) (hkind : token.kind ≠ .endOfText)
    (hmem : [token] ∈ language) :
    Answers (language * other) (fun i => do advance; others i) (token :: rest) :=
  h.answers_cons hend hlength (by simpa [Token.isEnd] using hkind) hmem fun _ cursor behind =>
    bind_eq_of_ok (advance_before cursor behind hkind)

theorem answers_return (value : α) {token : Token} {rest : List Token}
    (hend : ∃ last ∈ token :: rest, last.isEnd = true) (hkind : token.kind ≠ .endOfText)
    (hmem : [token] ∈ language) :
    Answers language (fun _ : ι => do advance; return value) (token :: rest) := by
  have hpure : Viable rest.length 1 fun _ : ι => (Pure.pure value : Parser α) := .pure value
  have hanswers := hpure.answers_advance hend le_rfl hkind hmem
  rwa [mul_one] at hanswers

theorem peek {next : ι → Token → Parser β}
    (h : ∀ token, Viable limit language fun i => next i token)
    (hlanguage : ∃ tokens, tokens ∈ language) :
    Viable limit language fun i => Parser.peek >>= next i :=
  .of_first hlanguage fun token _ hend hlength =>
    ((h token).answers _ hend hlength).congr fun _ cursor behind =>
      bind_eq_of_ok (peek_before cursor token behind)

theorem check {kind : TokenKind} {next : ι → Bool → Parser β}
    (htrue : Viable limit language fun i => next i true)
    (hfalse : Viable limit other fun i => next i false) :
    Viable limit (language + other) fun i => Parser.check kind >>= next i := by
  have htrue := htrue.mono (le_sup_left : language ≤ language + other)
  have hfalse := hfalse.mono (le_sup_right : other ≤ language + other)
  refine .of_first htrue.exists_mem fun token rest hend hlength => ?_
  have hcheck (cursor : Cursor) (behind : List Token) := check_before cursor kind token behind
  cases hkind : token.kind == kind with
  | true =>
      exact (htrue.answers _ hend hlength).congr fun i cursor behind =>
        bind_eq_of_ok (hkind ▸ hcheck cursor behind)
  | false =>
      exact (hfalse.answers _ hend hlength).congr fun i cursor behind =>
        bind_eq_of_ok (hkind ▸ hcheck cursor behind)

theorem accept_succ {kinds : List TokenKind} (hkinds : .endOfText ∉ kinds)
    {next : ι → Option Token → Parser β}
    (hsome : ∀ token, token.kind ∈ kinds → Viable limit language fun i => next i (some token))
    (hnone : Viable (limit + 1) other fun i => next i none) :
    Viable (limit + 1) (ofKinds kinds * language + other)
      fun i => Parser.accept kinds >>= next i := by
  have hnone := hnone.mono (le_sup_right : other ≤ ofKinds kinds * language + other)
  refine .of_first hnone.exists_mem fun token rest hend hlength => ?_
  by_cases hmem : token.kind ∈ kinds
  · have hplain : token.isEnd = false := by
      simp only [Token.isEnd, beq_eq_false_iff_ne]
      exact fun heq => hkinds (heq ▸ hmem)
    have hanswers := (hsome token hmem).answers_cons hend (Nat.le_of_lt_succ hlength) hplain
      (Token.mem_ofKinds hmem) fun i cursor behind =>
        bind_eq_of_ok (accept_of_mem cursor behind hmem hkinds)
    exact hanswers.mono le_sup_left
  · exact (hnone.answers _ hend hlength).congr fun i cursor behind =>
      bind_eq_of_ok (accept_of_not_mem cursor behind hmem)

theorem accept {kinds : List TokenKind} (hkinds : .endOfText ∉ kinds)
    {next : ι → Option Token → Parser β}
    (hsome : ∀ token, token.kind ∈ kinds → Viable limit language fun i => next i (some token))
    (hnone : Viable limit other fun i => next i none) :
    Viable limit (ofKinds kinds * language + other) fun i => Parser.accept kinds >>= next i := by
  cases limit with
  | zero => exact .zero (hnone.exists_mem.imp fun _ => .inr)
  | succ limit =>
      exact .accept_succ hkinds (fun token hmem => (hsome token hmem).of_le (Nat.le_succ limit))
        hnone

theorem fail {error : GrammarError} (haborts : error.aborts = true)
    (hlanguage : ∃ tokens, tokens ∈ language) :
    Viable limit language fun _ : ι => (Parser.fail error : Parser α) :=
  .of_first hlanguage fun token rest _ _ =>
    .aborts error (.refl token rest) hlanguage haborts fun _ _ _ => rfl

theorem expect {kind : TokenKind} (place : String) (hkind : kind ≠ .endOfText) :
    Viable limit (ofKinds [kind]) fun _ : ι => Parser.expect kind place := by
  refine .of_first (Token.exists_mem_ofKinds kind) fun token rest hend hlength => ?_
  by_cases hmem : token.kind = kind
  · have hplain : token.isEnd = false := by simpa [Token.isEnd, hmem] using hkind
    have hpure : Viable limit 1 fun _ : ι => (Pure.pure token : Parser Token) := .pure token
    have hanswers := hpure.answers_cons hend (Nat.le_of_lt hlength) hplain
      (Token.mem_ofKinds (List.mem_singleton.mpr hmem)) fun _ cursor behind =>
        expect_before cursor place behind hmem hkind
    rwa [mul_one] at hanswers
  · refine .aborts (.expectedToken kind place) (.refl token rest)
      (Token.exists_mem_ofKinds kind) rfl fun _ cursor behind => ?_
    rw [List.nil_append, Parser.expect, bind_eq_of_ok (peek_before cursor token behind),
      if_neg (by simpa using hmem)]
    rfl

theorem report (token : Token) {error : GrammarError} (h : error.aborts = false) :
    Viable limit 1 fun _ : ι => Parser.report token error := by
  refine .of_first ⟨[], rfl⟩ fun next rest _ _ => ?_
  have htakes : Takes (next :: rest) [] next rest [⟨token, error⟩] :=
    ⟨rfl, by simp, by simpa using h⟩
  exact .reads () htakes rfl fun _ _ _ => rfl

end Viable

end Parser

end Treewalk
