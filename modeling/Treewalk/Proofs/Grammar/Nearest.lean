import Treewalk.Proofs.Grammar.Clause

/-!
The dangling alternative costs no sentence. Whatever clause is written with some tokens, there is
one with the same tokens in which every alternative belongs to the nearest conditional: an
alternative behind a clause that could take it moves into that clause. The phrases are the same, so
the two deserve the same remarks.
-/

namespace Treewalk.Clause

variable {place : Place}

/-- The clause with an alternative for its last conditional that has none. -/
def attach (clause : Clause) (elseWord : Token) (alternative : Clause) : Clause :=
  match clause with
  | conditional heading consequent =>
      if consequent.endsOpen then conditional heading (consequent.attach elseWord alternative)
      else choice heading consequent elseWord alternative
  | choice heading consequent word last =>
      choice heading consequent word (last.attach elseWord alternative)
  | whileLoop heading body => whileLoop heading (body.attach elseWord alternative)
  | forLoop counting body => forLoop counting (body.attach elseWord alternative)
  | clause => clause

section

variable {elseWord : Token} {alternative : Clause}

theorem tokens_attach (clause : Clause) (h : clause.endsOpen = true) :
    (clause.attach elseWord alternative).tokens =
      clause.tokens ++ elseWord :: alternative.tokens := by
  induction clause using attach.induct with
  | case1 heading consequent hopen ih => simp [attach, hopen, tokens, ih hopen]
  | case2 heading consequent hopen => simp [attach, hopen, tokens]
  | case3 heading consequent word last ih => simp [attach, tokens, ih (by simpa [endsOpen] using h)]
  | case4 heading body ih => simp [attach, tokens, ih (by simpa [endsOpen] using h)]
  | case5 counting body ih => simp [attach, tokens, ih (by simpa [endsOpen] using h)]
  | case6 clause _ _ _ _ => cases clause <;> simp_all [endsOpen]

theorem remarks_attach (clause : Clause) (h : clause.endsOpen = true) :
    (clause.attach elseWord alternative).remarks = clause.remarks ++ alternative.remarks := by
  induction clause using attach.induct with
  | case1 heading consequent hopen ih => simp [attach, hopen, remarks, ih hopen]
  | case2 heading consequent hopen => simp [attach, hopen, remarks]
  | case3 heading consequent word last ih =>
      simp [attach, remarks, ih (by simpa [endsOpen] using h)]
  | case4 heading body ih => simp [attach, remarks, ih (by simpa [endsOpen] using h)]
  | case5 counting body ih => simp [attach, remarks, ih (by simpa [endsOpen] using h)]
  | case6 clause _ _ _ _ => cases clause <;> simp_all [endsOpen]

theorem Fits.attach {clause : Clause} (h : clause.Fits place)
    (helse : elseWord.kind = .elseWord) (halternative : alternative.Fits .statement) :
    (clause.attach elseWord alternative).Fits place := by
  induction h with
  | conditional hheading hconsequent ih =>
      rw [Clause.attach]
      split
      · exact .conditional hheading ih
      · exact .choice hheading hconsequent helse halternative
  | choice hheading hconsequent hword _ _ ih => exact .choice hheading hconsequent hword ih
  | whileLoop hheading _ ih => exact .whileLoop hheading ih
  | forLoop hcounting _ ih => exact .forLoop hcounting ih
  | expression hvalue hsemicolon => exact .expression hvalue hsemicolon
  | print hkeyword hvalue hsemicolon => exact .print hkeyword hvalue hsemicolon
  | block hopening hbody hclosing _ => exact .block hopening hbody hclosing
  | declare hdeclaration => exact .declare hdeclaration
  | statement _ ih => exact .statement ih

theorem Nearest.attach {clause : Clause} (h : clause.Nearest)
    (halternative : alternative.Nearest) : (clause.attach elseWord alternative).Nearest := by
  induction clause using attach.induct with
  | case1 heading consequent hopen ih =>
      simp only [Clause.attach, hopen, if_true, Nearest] at h ⊢
      exact ih h
  | case2 heading consequent hopen =>
      simp only [Clause.attach, hopen, Nearest] at h ⊢
      exact ⟨by simpa using hopen, h, halternative⟩
  | case3 heading consequent word last ih =>
      simp only [Clause.attach, Nearest] at h ⊢
      exact ⟨h.1, h.2.1, ih h.2.2⟩
  | case4 heading body ih | case5 counting body ih =>
      simp only [Clause.attach, Nearest] at h ⊢
      exact ih h
  | case6 clause _ _ _ _ => rwa [Clause.attach] <;> assumption

end

theorem exists_nearestRow {row : List Clause}
    (h : ∀ clause ∈ row, ∃ other : Clause, other.Fits place ∧ other.Nearest ∧
      other.tokens = clause.tokens ∧ other.remarks = clause.remarks) :
    ∃ others : List Clause, (∀ clause ∈ others, clause.Fits place) ∧ NearestRow others ∧
      tokensRow others = tokensRow row ∧ remarksRow others = remarksRow row := by
  induction row with
  | nil => exact ⟨[], by simp, trivial, rfl, rfl⟩
  | cons first rest ih =>
      obtain ⟨other, hfits, hnearest, htokens, hremarks⟩ := h first (by simp)
      obtain ⟨others, hothers, hrow, hrest, hrest'⟩ :=
        ih fun clause hmem => h clause (.tail _ hmem)
      refine ⟨other :: others, by simpa using ⟨hfits, hothers⟩, ⟨hnearest, hrow⟩, ?_, ?_⟩
      · rw [tokensRow, tokensRow, htokens, hrest]
      · rw [remarksRow, remarksRow, hremarks, hrest']

/-- Every clause can be read so that each alternative belongs to the nearest conditional. -/
theorem Fits.exists_nearest {clause : Clause} (h : clause.Fits place) :
    ∃ other : Clause, other.Fits place ∧ other.Nearest ∧ other.tokens = clause.tokens ∧
      other.remarks = clause.remarks := by
  induction h with
  | expression hvalue hsemicolon =>
      exact ⟨_, .expression hvalue hsemicolon, by simp [Nearest], rfl, rfl⟩
  | print hkeyword hvalue hsemicolon =>
      exact ⟨_, .print hkeyword hvalue hsemicolon, by simp [Nearest], rfl, rfl⟩
  | block hopening _ hclosing ih =>
      obtain ⟨others, hfits, hnearest, htokens, hremarks⟩ := exists_nearestRow ih
      exact ⟨_, .block hopening hfits hclosing, by simpa [Nearest], by simp [tokens, htokens],
        by simp [remarks, hremarks]⟩
  | conditional hheading _ ih =>
      obtain ⟨other, hfits, hnearest, htokens, hremarks⟩ := ih
      exact ⟨_, .conditional hheading hfits, by simpa [Nearest], by simp [tokens, htokens],
        by simp [remarks, hremarks]⟩
  | choice hheading _ helse _ ihConsequent ihAlternative =>
      obtain ⟨consequent, hfits, hnearest, htokens, hremarks⟩ := ihConsequent
      obtain ⟨alternative, hfits', hnearest', htokens', hremarks'⟩ := ihAlternative
      cases hopen : consequent.endsOpen with
      | true =>
          -- the nearest conditional is one inside the consequent
          refine ⟨_, .conditional hheading (hfits.attach helse hfits'), ?_, ?_, ?_⟩
          · simpa [Nearest] using hnearest.attach hnearest'
          · simp [tokens, tokens_attach consequent hopen, htokens, htokens']
          · simp [remarks, remarks_attach consequent hopen, hremarks, hremarks']
      | false =>
          exact ⟨_, .choice hheading hfits helse hfits', by simp [Nearest, *],
            by simp [tokens, htokens, htokens'], by simp [remarks, hremarks, hremarks']⟩
  | whileLoop hheading _ ih =>
      obtain ⟨other, hfits, hnearest, htokens, hremarks⟩ := ih
      exact ⟨_, .whileLoop hheading hfits, by simpa [Nearest], by simp [tokens, htokens],
        by simp [remarks, hremarks]⟩
  | forLoop hcounting _ ih =>
      obtain ⟨other, hfits, hnearest, htokens, hremarks⟩ := ih
      exact ⟨_, .forLoop hcounting hfits, by simpa [Nearest], by simp [tokens, htokens],
        by simp [remarks, hremarks]⟩
  | declare hdeclaration => exact ⟨_, .declare hdeclaration, by simp [Nearest], rfl, rfl⟩
  | statement _ ih =>
      obtain ⟨other, hfits, hnearest, htokens⟩ := ih
      exact ⟨other, .statement hfits, hnearest, htokens⟩

end Treewalk.Clause
