import Mathlib.Data.List.Induction
import Mathlib.Data.List.Nodup

/-
  The entries of a list, each once, in the order of their
  first occurrence.

  Main declarations:
    * `Firsts.Of`
    * `Firsts.keep`, `Firsts.foldl_keep`
    * `Firsts.of_eraseDups`
-/

------------------------------------------------------------
-- First Occurrences
------------------------------------------------------------

namespace Firsts

variable {α : Type} [DecidableEq α]

/-
  The distinct elements of a list, in the order of their
  first occurrence.
-/
structure Of
    (xs firsts : List α) : Prop where
  distinct : firsts.Nodup
  mem_iff : ∀ x, x ∈ firsts ↔ x ∈ xs
  ordered : firsts.Pairwise (fun x y => xs.idxOf x < xs.idxOf y)

/- An entry is kept when it is the first of its kind. -/
def keep
    (kept : List α)
    (x : α) : List α :=
  if x ∈ kept then kept else kept ++ [x]

variable {xs firsts : List α} {x : α}

/- An empty list has none. -/
theorem Of.nil : Of ([] : List α) [] where
  distinct := List.nodup_nil
  mem_iff _ := Iff.rfl
  ordered := List.Pairwise.nil

/- The positions of what has occurred stay as they are. -/
theorem Of.ordered_append
    (hOf : Of xs firsts)
    (rest : List α) :
    firsts.Pairwise
      (fun y z =>
        (xs ++ rest).idxOf y < (xs ++ rest).idxOf z) := by
  apply hOf.ordered.imp_of_mem
  intro y z hy hz hLt
  rw [List.idxOf_append_of_mem ((hOf.mem_iff y).mp hy),
    List.idxOf_append_of_mem ((hOf.mem_iff z).mp hz)]
  exact hLt

/-
  The step: an element is added at the end, unless it is
  there.
-/
theorem Of.keep
    (hOf : Of xs firsts)
    (x : α) :
    Of (xs ++ [x]) (Firsts.keep firsts x) := by
  rw [Firsts.keep]
  by_cases hMem : x ∈ firsts
  · rw [if_pos hMem]
    refine ⟨hOf.distinct, ?_, hOf.ordered_append [x]⟩
    intro y
    rw [List.mem_append, List.mem_singleton, ← hOf.mem_iff y]
    constructor
    · exact Or.inl
    · rintro (hy | rfl)
      · exact hy
      · exact hMem
  · rw [if_neg hMem]
    have hNew : x ∉ xs := fun h => hMem ((hOf.mem_iff x).mpr h)
    refine ⟨?_, ?_, ?_⟩
    · rw [← List.concat_eq_append]
      exact hOf.distinct.concat hMem
    · intro y
      rw [List.mem_append, List.mem_append, hOf.mem_iff y]
    · rw [List.pairwise_append]
      refine ⟨hOf.ordered_append [x],
        List.pairwise_singleton _ _, ?_⟩
      intro y hy z hz
      have hOld : y ∈ xs := (hOf.mem_iff y).mp hy
      have hPlace : xs.idxOf y < xs.length :=
        List.idxOf_lt_length_of_mem hOld
      rw [List.mem_singleton.mp hz,
        List.idxOf_append_of_mem hOld,
        List.idxOf_append_of_notMem hNew]
      omega

/- The library's function does the same step. -/
theorem eraseDups_snoc
    (xs : List α)
    (x : α) :
    (xs ++ [x]).eraseDups = keep xs.eraseDups x := by
  rw [List.eraseDups_append, keep]
  by_cases hMem : x ∈ xs
  · simp [hMem, List.removeAll]
  · simp [hMem, List.removeAll, List.eraseDups_cons]

/- What the loop over a list keeps. -/
theorem foldl_keep
    (xs : List α) :
    xs.foldl keep [] = xs.eraseDups := by
  induction xs using List.reverseRecOn with
  | nil => rw [List.foldl_nil, List.eraseDups_nil]
  | append_singleton xs x ih =>
      rw [List.foldl_append, ih, eraseDups_snoc,
        List.foldl_cons, List.foldl_nil]

/- The library's function computes the first occurrences. -/
theorem of_eraseDups
    (xs : List α) :
    Of xs xs.eraseDups := by
  induction xs using List.reverseRecOn with
  | nil => exact Of.nil
  | append_singleton xs x ih =>
      rw [eraseDups_snoc]
      exact ih.keep x

end Firsts
