import Treewalk.Proofs.Parsing.ValidPrefix

/-!
The mistakes that confuse no reader, node by node. An assignment to something other than a name is
one, at its equals sign, and so is each argument of a call that takes too many, at its first token.
What the parser remarks on a sentence are these mistakes of all phrases of the sentence, each once
and nothing else, however deep the phrase and however the sentence is derived.
-/

namespace Treewalk

namespace Phrase

/-- The mistakes of a phrase itself, without those of the phrases inside. -/
def mistakes : Phrase → List Remark
  | assign (var _) _ _ => []
  | assign _ equals _ => [⟨equals, .invalidAssignmentTarget⟩]
  | call _ _ arguments _ _ =>
      (arguments.drop maximumArguments).map fun argument => ⟨argument.first, .tooManyArguments⟩
  | _ => []

mutual

/-- The phrase and all phrases inside. -/
def parts : Phrase → List Phrase
  | constant token value => [constant token value]
  | var name => [var name]
  | group opening inner closing => group opening inner closing :: inner.parts
  | call callee opening arguments commas closing =>
      call callee opening arguments commas closing :: (callee.parts ++ partsRow arguments)
  | unary operator operand => unary operator operand :: operand.parts
  | binary left operator right => binary left operator right :: (left.parts ++ right.parts)
  | assign target equals value => assign target equals value :: (target.parts ++ value.parts)

def partsRow : List Phrase → List Phrase
  | [] => []
  | first :: rest => first.parts ++ partsRow rest

end

theorem partsRow_eq (row : List Phrase) : partsRow row = row.flatMap parts := by
  induction row with
  | nil => rfl
  | cons first rest ih => rw [partsRow, ih, List.flatMap_cons]

theorem targetRemarks_eq (target : Phrase) (equals : Token) (value : Phrase) :
    target.targetRemarks equals = (assign target equals value).mistakes := by
  cases target <;> rfl

/-- The remarks on the number of arguments, one for each argument after the last that is allowed. -/
theorem countRemarks_append (count : Nat) (first : Phrase) (rest : List Phrase) :
    first.countRemarks count ++ (rest.drop (maximumArguments - (count + 1))).map
        (fun argument => (⟨argument.first, .tooManyArguments⟩ : Remark)) =
      ((first :: rest).drop (maximumArguments - count)).map
        fun argument => ⟨argument.first, .tooManyArguments⟩ := by
  rw [countRemarks]
  split
  · next hcount =>
      rw [Nat.sub_eq_zero_of_le hcount, Nat.sub_eq_zero_of_le (Nat.le_succ_of_le hcount)]
      rfl
  · next hcount =>
      obtain ⟨more, hmore⟩ : ∃ more, maximumArguments - count = more + 1 :=
        ⟨maximumArguments - count - 1, by omega⟩
      rw [hmore, show maximumArguments - (count + 1) = more by omega]
      rfl

mutual

/-- What is remarked on a phrase are the mistakes of its parts. -/
theorem remarks_perm (phrase : Phrase) :
    phrase.remarks.Perm (phrase.parts.flatMap mistakes) := by
  match phrase with
  | constant _ _ | var _ => rfl
  | group _ inner _ => exact inner.remarks_perm
  | unary _ operand => exact operand.remarks_perm
  | binary left _ right =>
      rw [remarks, parts, List.flatMap_cons, List.flatMap_append]
      exact left.remarks_perm.append right.remarks_perm
  | assign target equals value =>
      rw [remarks, parts, List.flatMap_cons, List.flatMap_append,
        target.targetRemarks_eq equals value]
      exact List.perm_append_comm.trans
        ((target.remarks_perm.append value.remarks_perm).append_left _)
  | call callee opening arguments commas closing =>
      -- The remarks on the callee come before those on the number of arguments.
      have harguments := remarksRow_perm 0 arguments
      rw [remarks, parts, List.flatMap_cons, List.flatMap_append]
      refine (callee.remarks_perm.append harguments).trans ?_
      rw [← List.append_assoc, ← List.append_assoc]
      exact List.perm_append_comm.append_right _

theorem remarksRow_perm (count : Nat) (arguments : List Phrase) :
    (remarksRow count arguments).Perm
      ((arguments.drop (maximumArguments - count)).map
          (fun argument => (⟨argument.first, .tooManyArguments⟩ : Remark)) ++
        (partsRow arguments).flatMap mistakes) := by
  match arguments with
  | [] => simp [remarksRow, partsRow]
  | first :: rest =>
      have hrest := remarksRow_perm (count + 1) rest
      rw [remarksRow, partsRow, List.flatMap_append, ← countRemarks_append]
      refine ((first.remarks_perm.append_left _).append hrest).trans ?_
      simp only [List.append_assoc]
      refine List.Perm.append_left _ ?_
      rw [← List.append_assoc, ← List.append_assoc]
      exact List.perm_append_comm.append_right _

end

end Phrase

/-! The phrases of a listing. -/

def Declaration.phrases (declaration : Declaration) : List Phrase :=
  declaration.initial.toList.map Prod.snd

def Initial.phrases : Initial → List Phrase
  | none _ => []
  | declaration declared => declared.phrases
  | expression value _ => [value]

def Counting.phrases (counting : Counting) : List Phrase :=
  counting.initial.phrases ++ counting.condition.toList ++ counting.increment.toList

namespace Clause

mutual

/-- The phrases that stand in a clause or in the clauses inside. -/
def phrases : Clause → List Phrase
  | expression value _ => [value]
  | print _ value _ => [value]
  | declare declaration => declaration.phrases
  | block _ body _ => phrasesRow body
  | conditional heading consequent => heading.condition :: consequent.phrases
  | choice heading consequent _ alternative =>
      heading.condition :: (consequent.phrases ++ alternative.phrases)
  | whileLoop heading body => heading.condition :: body.phrases
  | forLoop counting body => counting.phrases ++ body.phrases

def phrasesRow : List Clause → List Phrase
  | [] => []
  | first :: rest => first.phrases ++ phrasesRow rest

end

end Clause

theorem Declaration.remarks_eq (declaration : Declaration) :
    declaration.remarks = declaration.phrases.flatMap Phrase.remarks := by
  obtain ⟨keyword, name, initial, semicolon⟩ := declaration
  cases initial <;> simp [remarks, phrases]

theorem Initial.remarks_eq (initial : Initial) :
    initial.remarks = initial.phrases.flatMap Phrase.remarks := by
  cases initial with
  | none _ => rfl
  | declaration declared => exact declared.remarks_eq
  | expression value _ => simp [remarks, phrases]

theorem Counting.remarks_eq (counting : Counting) :
    counting.remarks = counting.phrases.flatMap Phrase.remarks := by
  have hoptional (phrase : Option Phrase) :
      phrase.elim [] Phrase.remarks = phrase.toList.flatMap Phrase.remarks := by
    cases phrase <;> simp
  rw [remarks, phrases, counting.initial.remarks_eq, hoptional, hoptional, List.flatMap_append,
    List.flatMap_append]

namespace Clause

mutual

theorem remarks_eq (clause : Clause) :
    clause.remarks = clause.phrases.flatMap Phrase.remarks := by
  match clause with
  | expression value _ | print _ value _ => simp [remarks, phrases]
  | declare declaration => exact declaration.remarks_eq
  | block _ body _ => exact remarksRow_eq body
  | conditional heading consequent | whileLoop heading consequent =>
      rw [remarks, phrases, List.flatMap_cons, consequent.remarks_eq]
  | choice heading consequent _ alternative =>
      rw [remarks, phrases, List.flatMap_cons, List.flatMap_append, consequent.remarks_eq,
        alternative.remarks_eq]
  | forLoop counting body =>
      rw [remarks, phrases, List.flatMap_append, counting.remarks_eq, body.remarks_eq]

theorem remarksRow_eq (row : List Clause) :
    remarksRow row = (phrasesRow row).flatMap Phrase.remarks := by
  match row with
  | [] => rfl
  | first :: rest =>
      rw [remarksRow, phrasesRow, List.flatMap_append, first.remarks_eq, remarksRow_eq rest]

end

end Clause

/-- The mistakes of all phrases of a listing, at any depth. -/
def Listing.mistakes (listing : Listing) : List Remark :=
  ((Clause.phrasesRow listing).flatMap Phrase.parts).flatMap Phrase.mistakes

theorem Listing.remarks_perm (listing : Listing) :
    (Clause.remarksRow listing).Perm listing.mistakes := by
  rw [Clause.remarksRow_eq, mistakes, List.flatMap_assoc]
  exact List.Perm.flatMap_left _ fun phrase _ => phrase.remarks_perm

/-- The text `(a) = f(x, …, x);` with one argument too many. -/
def Listing.crowdedCall : Listing :=
  [.expression (.assign
      (.group (word .leftParen "(") (.var (name "a")) (word .rightParen ")"))
      (word .equal "=")
      (.call (.var (name "f")) (word .leftParen "(")
        (List.replicate (maximumArguments + 1) (.var (name "x")))
        (List.replicate maximumArguments (word .comma ",")) (word .rightParen ")")))
    (word .semicolon ";")]

theorem Listing.crowdedCall_fits : ∀ clause ∈ crowdedCall, clause.Fits .declaration := by
  have hname (spelling : String) : (Phrase.var (name spelling)).Fits .assignment := by
    iterate 9 refine .tighter ?_
    exact .var rfl
  have htarget : (Phrase.group (word .leftParen "(") (.var (name "a"))
      (word .rightParen ")")).Fits .disjunction := by
    iterate 8 refine .tighter ?_
    exact .group rfl (hname "a") rfl
  rw [crowdedCall, List.forall_mem_singleton]
  refine .statement (.expression (.assign htarget rfl ?_) rfl)
  iterate 8 refine .tighter ?_
  refine .call (.tighter (.var rfl)) rfl ?_ ?_ (by simp) rfl
  · exact fun argument hmem => (List.mem_replicate.mp hmem).2 ▸ hname "x"
  · exact fun comma hmem => (List.mem_replicate.mp hmem).2 ▸ rfl

namespace Parsed

/-- The tokens of a listing are read with its remarks, whichever conditional an alternative has been
taken for. -/
theorem ofTokens_remarks {listing : Listing} (h : ∀ clause ∈ listing, clause.Fits .declaration)
    {ending : Token} (hend : ending.isEnd = true) (rest : List Token) (diagnostics : Diagnostics) :
    ∃ program, ofTokens (listing.tokens ++ ending :: rest) diagnostics =
        .ok ⟨program, ⟨diagnostics.entries ++
          (Clause.remarksRow listing).map Remark.diagnostic⟩⟩ ∧
      (program.isSome = true ↔ Clause.remarksRow listing = []) := by
  obtain ⟨nearest, hfits, hnearest, htokens, hremarks⟩ :=
    Clause.exists_nearestRow fun clause hmem => (h clause hmem).exists_nearest
  have hlength : (Clause.tokensRow nearest).length <
      (listing.tokens ++ ending :: rest).length + 1 := by
    rw [htokens, Listing.tokens, List.length_append]
    omega
  have hread := Parser.declarations_before hfits hnearest hend rest (Nat.le_of_lt hlength) _
    hlength [] ⟨[], diagnostics, false⟩
  rw [htokens, hremarks] at hread
  have hparse := ofTokens_of_declarations hread
  have hentries := Cursor.entries_noting ⟨[], diagnostics, false⟩ (Clause.remarksRow listing)
  refine ⟨if (Clause.remarksRow listing).isEmpty then some (Clause.treeRow nearest) else none,
    ?_, ?_⟩
  · rw [hparse, ← hentries, Cursor.failed_before, Cursor.failed_noting]
    cases Clause.remarksRow listing <;> rfl
  · cases Clause.remarksRow listing <;> simp

/-- A sentence is read without giving anything up, and what is recorded are its mistakes, each of
them once: those of assignments to something other than a name, in parentheses or not, and those of
arguments too many. There is a program if there are none. -/
theorem ofTokens_mistakes {listing : Listing} (h : ∀ clause ∈ listing, clause.Fits .declaration)
    {ending : Token} (hend : ending.isEnd = true) (rest : List Token) (diagnostics : Diagnostics) :
    ∃ program added, ofTokens (listing.tokens ++ ending :: rest) diagnostics =
        .ok ⟨program, ⟨diagnostics.entries ++ added⟩⟩ ∧
      (∀ diagnostic ∈ added, diagnostic.aborts = false) ∧
      added.Perm (listing.mistakes.map Remark.diagnostic) ∧
      (program.isSome = true ↔ listing.mistakes = []) := by
  obtain ⟨program, hread, hprogram⟩ := ofTokens_remarks h hend rest diagnostics
  have hmild := Clause.remarksRow_mild listing
  have hperm := listing.remarks_perm
  refine ⟨program, _, hread, ?_, hperm.map _, ?_⟩
  · simpa [Remark.diagnostic, Diagnostic.aborts] using hmild
  · rw [hprogram]
    exact ⟨fun hnil => (hnil ▸ hperm).nil_eq.symm, fun hnil => (hnil ▸ hperm).eq_nil⟩

theorem ofTokens_mistakes_crowdedCall :
    ∃ added, ofTokens (Listing.crowdedCall.tokens ++ [Listing.word .endOfText ""]) {} =
        .ok ⟨none, ⟨added⟩⟩ ∧
      added.Perm [Remark.diagnostic ⟨Listing.word .equal "=", .invalidAssignmentTarget⟩,
        Remark.diagnostic ⟨Listing.name "x", .tooManyArguments⟩] := by
  obtain ⟨program, added, hread, -, hperm, hprogram⟩ :=
    ofTokens_mistakes Listing.crowdedCall_fits (rfl : (Listing.word .endOfText "").isEnd = true)
      [] {}
  have hmistakes : Listing.crowdedCall.mistakes =
      [⟨Listing.word .equal "=", .invalidAssignmentTarget⟩,
        ⟨Listing.name "x", .tooManyArguments⟩] := by
    simp [Listing.mistakes, Listing.crowdedCall, Clause.phrasesRow, Clause.phrases, Phrase.parts,
      Phrase.partsRow_eq, Phrase.mistakes, Phrase.first]
  rw [hmistakes] at hperm hprogram
  cases program with
  | none => exact ⟨added, hread, hperm⟩
  | some program => simp at hprogram

end Parsed

end Treewalk
