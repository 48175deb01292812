import Mathlib.Data.List.Basic

/-
  Histories in which each entry is in order given the ones
  before it, and what a history has opened and not closed.

  Main declarations:
    * `History.Holds`
    * `History.Holds.snoc`, `History.Holds.append`
    * `History.Open`, `History.Open.append_iff`
-/

------------------------------------------------------------
-- Entries in Order
------------------------------------------------------------

namespace History

variable {Entry : Type}

/- Every entry of the history is in order. -/
def Holds
    (ok : List Entry → Entry → Prop)
    (log : List Entry) : Prop :=
  ∀ before e after, log = before ++ e :: after → ok before e

/- A history that has been extended, split at an entry. -/
theorem snoc_eq_split
    {log before after : List Entry} {new e : Entry}
    (h : log ++ [new] = before ++ e :: after) :
    (before = log ∧ e = new ∧ after = []) ∨
      ∃ rest, after = rest ++ [new] ∧
        log = before ++ e :: rest := by
  rcases List.eq_nil_or_concat' after with rfl | ⟨rest, last, rfl⟩
  · obtain ⟨hLog, hLast⟩ := List.append_inj' h rfl
    cases hLast
    exact Or.inl ⟨hLog.symm, rfl, rfl⟩
  · have hSplit :
        log ++ [new] = (before ++ e :: rest) ++ [last] := by
      rw [h]
      simp
    obtain ⟨hLog, hLast⟩ := List.append_inj' hSplit rfl
    cases hLast
    exact Or.inr ⟨rest, rfl, hLog⟩

namespace Holds

variable {ok : List Entry → Entry → Prop}
variable {log es : List Entry} {e : Entry}

theorem nil : Holds ok [] := by
  intro before e after h
  simp at h

theorem snoc
    (hHolds : Holds ok log)
    (hOk : ok log e) :
    Holds ok (log ++ [e]) := by
  intro before e' after h
  rcases snoc_eq_split h with
    ⟨rfl, rfl, _⟩ | ⟨rest, _, hLog⟩
  · exact hOk
  · exact hHolds before e' rest hLog

/- Entries that are in order after any history. -/
theorem append
    (hHolds : Holds ok log)
    (hOk : ∀ e ∈ es, ∀ before, ok before e) :
    Holds ok (log ++ es) := by
  induction es generalizing log with
  | nil => simpa using hHolds
  | cons e es ih =>
      rw [← List.singleton_append, ← List.append_assoc]
      refine ih (hHolds.snoc (hOk e (by simp) log)) ?_
      exact fun e' he' => hOk e' (by simp [he'])

/- Entries that are in order after those of their own batch. -/
theorem extend
    (hHolds : Holds ok log)
    (hOk :
      ∀ before e after, es = before ++ e :: after →
        ok (log ++ before) e) :
    Holds ok (log ++ es) := by
  induction es generalizing log with
  | nil => simpa using hHolds
  | cons e es ih =>
      rw [← List.singleton_append, ← List.append_assoc]
      apply ih
      · apply hHolds.snoc
        simpa using hOk [] e es rfl
      · intro before e' after hEs
        rw [List.append_assoc]
        exact hOk (e :: before) e' after (by rw [hEs]; rfl)

end Holds

------------------------------------------------------------
-- Open Entries
------------------------------------------------------------

/- Some entry opens, and no entry after it closes. -/
def Open
    (opens closes : Entry → Bool)
    (log : List Entry) : Prop :=
  ∃ before e after,
    log = before ++ e :: after ∧ opens e = true ∧
      ∀ f ∈ after, closes f = false

namespace Open

variable {opens closes : Entry → Bool}
variable {log es : List Entry} {e : Entry}

theorem nil : ¬ Open opens closes [] := by
  rintro ⟨before, e, after, h, -⟩
  simp at h

theorem snoc_iff :
    Open opens closes (log ++ [e]) ↔
      opens e = true ∨
        (Open opens closes log ∧ closes e = false) := by
  constructor
  · rintro ⟨before, e', after, h, hOpens, hAfter⟩
    rcases snoc_eq_split h with
      ⟨-, rfl, -⟩ | ⟨rest, rfl, hLog⟩
    · exact Or.inl hOpens
    · refine Or.inr ⟨⟨before, e', rest, hLog, hOpens, ?_⟩, ?_⟩
      · exact fun f hf =>
          hAfter f (List.mem_append_left _ hf)
      · exact hAfter e (by simp)
  · rintro (hOpens | ⟨⟨before, e', after, rfl, hOpens, hAfter⟩,
      hCloses⟩)
    · exact ⟨log, e, [], rfl, hOpens, by simp⟩
    · refine ⟨before, e', after ++ [e], by simp, hOpens, ?_⟩
      intro f hf
      rcases List.mem_append.mp hf with hf | hf
      · exact hAfter f hf
      · rw [List.mem_singleton.mp hf]
        exact hCloses

/- Entries that open nothing. -/
theorem append_iff
    (hOpens : ∀ e ∈ es, opens e = false) :
    Open opens closes (log ++ es) ↔
      Open opens closes log ∧ ∀ e ∈ es, closes e = false := by
  induction es generalizing log with
  | nil => simp
  | cons e es ih =>
      rw [← List.singleton_append, ← List.append_assoc,
        ih (fun e' he' => hOpens e' (by simp [he'])), snoc_iff,
        hOpens e (by simp)]
      simp [and_assoc]

/- What is not open has been closed since it was opened. -/
theorem closed
    {before after : List Entry}
    (hNot : ¬ Open opens closes log)
    (hLog : log = before ++ e :: after)
    (hOpens : opens e = true) :
    ∃ f ∈ after, closes f = true := by
  by_contra hNone
  refine hNot ⟨before, e, after, hLog, hOpens, ?_⟩
  intro f hf
  apply eq_false_of_ne_true
  exact fun h => hNone ⟨f, hf, h⟩

end Open

end History
