import Ferrex.Lib.Words
import Ferrex.Core.Entity
import Ferrex.Core.Predicate

/-
  The normal form that the names of entities and predicates
  share: what both normalizers give, and what both leave
  alone.

  Main declarations:
    * `separators`, `NormalText`
    * `normalizeText_idempotent`
    * `text_normalizers_agree`
-/

------------------------------------------------------------
-- Normal Texts
------------------------------------------------------------

namespace Ferrex

namespace Core

open Text

variable {Vec F : Type}
variable {env : Env Vec F}

/- The characters that are read as blanks. -/
def separators : List Char := ['-', '_', '/']

/-
  The code's normal form is the general one, at its
  separators.
-/
theorem normalizeText_eq
    (env : Env Vec F)
    (s : String) :
    normalizeText env s =
      normalForm env.caseData separators s :=
  rfl

/- A normal form is its own normal form. -/
theorem normalizeText_idempotent
    (s : String)
    (hIdempotent : env.caseData.Idempotent) :
    normalizeText env (normalizeText env s) =
      normalizeText env s :=
  normalForm_idempotent separators s hIdempotent

/- A text that one of the normalizers gives. -/
def NormalText (env : Env Vec F) (t : String) : Prop :=
  ∃ s,
    t = Entity.normalize env s ∨
      t = PredicateNormalizer.textNormalize env s

/-
  The form of a normalized text: no separators, and no white
  space but single blanks between other characters.
-/
structure InForm (t : String) : Prop where
  notSeparator : ∀ c ∈ t.toList, c ≠ '-' ∧ c ≠ '_' ∧ c ≠ '/'
  singleBlanks : SingleBlanks t.toList

/- A normal text is the normal form of some text. -/
theorem NormalText.exists_eq
    {t : String}
    (hNormal : NormalText env t) :
    ∃ s, t = normalizeText env s := by
  rcases hNormal with ⟨s, hEq | hEq⟩
  · exact ⟨s, hEq⟩
  · exact ⟨s, hEq⟩

/- A normal text has single blanks, in lower case. -/
theorem NormalText.inForm
    {t : String}
    (hNormal : NormalText env t) :
    InForm t := by
  rcases hNormal.exists_eq with ⟨s, hEq⟩
  rw [hEq, normalizeText_eq]
  constructor
  · intro c hc
    have hBlank : ' ' ∉ separators := by decide
    have hNot := not_separator_of_mem_normalForm hBlank hc
    simpa [separators] using hNot
  · exact singleBlanks_normalForm

/-
  Both normalizers give the same text, which both leave as it
  is and which is empty only for want of letters.
-/
theorem text_normalizers_agree
    (env : Env Vec F)
    (hIdempotent : env.caseData.Idempotent)
    (hAdds : env.caseData.AddsNone separators) :
    (∀ s,
      Entity.normalize env s =
        PredicateNormalizer.textNormalize env s) ∧
    (∀ t, NormalText env t →
      Entity.normalize env t = t ∧
        PredicateNormalizer.textNormalize env t = t ∧
        InForm t) ∧
    ∀ s,
      Entity.normalize env s = "" ∨
          PredicateNormalizer.textNormalize env s = "" →
        ∀ c ∈ s.toList,
          isWhitespace c = true ∨
            c = '-' ∨ c = '_' ∨ c = '/' := by
  refine ⟨fun s => rfl, ?_, ?_⟩
  · intro t hNormal
    rcases hNormal.exists_eq with ⟨s, hEq⟩
    have hSame : normalizeText env t = t := by
      rw [hEq]
      exact normalizeText_idempotent s hIdempotent
    exact ⟨hSame, hSame, hNormal.inForm⟩
  · intro s hEmpty c hc
    have hForm : normalForm env.caseData separators s = "" := by
      rcases hEmpty with hEmpty | hEmpty <;> exact hEmpty
    have hWhich := of_normalForm_eq_empty hAdds hForm hc
    simpa [separators] using hWhich

------------------------------------------------------------
-- Plain Texts
------------------------------------------------------------

/- Case folding by ASCII is idempotent. -/
theorem plain_idempotent : Env.plain.caseData.Idempotent :=
  CaseData.ascii_lowered.idempotent

/- Case folding by ASCII makes no separators. -/
theorem plain_addsNone :
    Env.plain.caseData.AddsNone separators where
  lower := by
    have hCapitals :
        ∀ n < 91, 65 ≤ n →
          Char.ofNat (n + 32) ∉ separators := by
      decide
    intro c d hc hd
    have hAscii :
        d ∈ CaseData.ascii.lower c := hd
    unfold CaseData.ascii at hAscii
    dsimp only at hAscii
    split at hAscii
    · rename_i hCapital
      rw [List.mem_singleton.mp hAscii]
      exact hCapitals _ (by omega) hCapital.1
    · rw [List.mem_singleton.mp hAscii]
      exact hc
  sigma := by decide
  finalSigma := by decide

/- One text with all that is normalized, by both of them. -/
theorem text_normalizers_agree_knows_about :
    PredicateNormalizer.textNormalize Env.plain
        " Knows-About__The / CAT " = "knows about the cat" ∧
      Entity.normalize Env.plain "knows about the cat" =
        "knows about the cat" ∧
      InForm "knows about the cat" := by
  have hEntity :
      Entity.normalize Env.plain " Knows-About__The / CAT " =
        "knows about the cat" := by
    decide +kernel
  have hAgree :=
    text_normalizers_agree Env.plain plain_idempotent
      plain_addsNone
  have hNormal : NormalText Env.plain "knows about the cat" :=
    ⟨_, Or.inl hEntity.symm⟩
  rcases hAgree.2.1 _ hNormal with ⟨hSame, _, hForm⟩
  exact ⟨(hAgree.1 _).symm.trans hEntity, hSame, hForm⟩

end Core

end Ferrex
