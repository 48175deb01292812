import Mathlib.Data.List.Induction
import Mathlib.Data.List.Nodup
import Mathlib.Data.List.Perm.Basic

/-
  Maps from keys to lists that are filled entry by entry,
  and orders in which the entries of a map are visited.

  Main declarations:
    * `Groups.extend`, `Groups.collect`
    * `Groups.lookup_extend`
    * `Groups.mem_collect_iff`, `Groups.lookup_collect`
    * `Iteration`
-/

------------------------------------------------------------
-- Operations
------------------------------------------------------------

namespace Groups

variable {K V : Type} [DecidableEq K]

/- Appends to the list of a key, which starts out empty. -/
def extend
    (k : K)
    (vs : List V) : List (K × List V) → List (K × List V)
| [] => [(k, vs)]
| (k', ws) :: m =>
    if k' = k then
      (k', ws ++ vs) :: m
    else
      (k', ws) :: extend k vs m

/- Appends a value to the group of its key, if it has one. -/
def add
    (key : V → Option K)
    (m : List (K × List V))
    (v : V) : List (K × List V) :=
  match key v with
  | some k => extend k [v] m
  | none => m

/- The groups of the values of a list, each in its order. -/
def collect
    (key : V → Option K)
    (vs : List V) : List (K × List V) :=
  vs.foldl (add key) []

/- No key has two lists. -/
def Distinct (m : List (K × List V)) : Prop :=
  (m.map Prod.fst).Nodup

------------------------------------------------------------
-- Lookups
------------------------------------------------------------

variable {k k' : K} {vs ws : List V} {m : List (K × List V)}

/- The keys of a map grow by the one that is written. -/
@[simp] theorem mem_keys_extend_iff :
    k' ∈ (extend k vs m).map Prod.fst ↔
      k' = k ∨ k' ∈ m.map Prod.fst := by
  induction m with
  | nil => simp [extend]
  | cons entry m ih =>
      rcases entry with ⟨j, us⟩
      rw [extend]
      by_cases hKey : j = k
      · subst hKey
        simp
      · rw [if_neg hKey, List.map_cons, List.mem_cons, ih,
          List.map_cons, List.mem_cons]
        exact or_left_comm

/- An extended map still has each key once. -/
theorem Distinct.extend
    (hDistinct : Distinct m) :
    Distinct (extend k vs m) := by
  induction m with
  | nil => exact List.nodup_singleton k
  | cons entry m ih =>
      rcases entry with ⟨j, us⟩
      have hSplit := List.nodup_cons.mp hDistinct
      rw [Groups.extend]
      by_cases hKey : j = k
      · rw [if_pos hKey]
        exact hDistinct
      · rw [if_neg hKey]
        apply List.nodup_cons.mpr
        refine ⟨?_, ih hSplit.2⟩
        rw [mem_keys_extend_iff]
        exact not_or.mpr ⟨hKey, hSplit.1⟩

/- A lookup tries the first entry, then the rest. -/
theorem lookup_cons
    {j : K} {us : List V} :
    ((j, us) :: m).lookup k =
      if k = j then some us else m.lookup k := by
  rw [List.lookup_cons]
  by_cases hKey : k = j
  · rw [if_pos hKey, beq_iff_eq.mpr hKey]
  · rw [if_neg hKey, beq_eq_false_iff_ne.mpr hKey]

/- The values of the key grow, and no others. -/
theorem lookup_extend :
    (extend k vs m).lookup k' =
      if k' = k then
        some ((m.lookup k).getD [] ++ vs)
      else
        m.lookup k' := by
  induction m with
  | nil => exact lookup_cons
  | cons entry m ih =>
      rcases entry with ⟨j, us⟩
      rw [extend]
      by_cases hKey : j = k
      · subst hKey
        rw [if_pos rfl, lookup_cons, lookup_cons, lookup_cons,
          if_pos rfl]
        by_cases hAsk : k' = j <;> simp [hAsk]
      · have hOther : ¬ k = j := fun h => hKey h.symm
        rw [if_neg hKey, lookup_cons, ih, lookup_cons,
          lookup_cons, if_neg hOther]
        by_cases hAsk : k' = j
        · subst hAsk
          rw [if_pos rfl, if_neg hKey, if_pos rfl]
        · rw [if_neg hAsk, if_neg hAsk]

/- Appending to several keys at once. -/
theorem mem_lookup_foldl_extend_iff
    {ks : List K} {v : V} :
    v ∈ ((ks.foldl (fun m k => extend k vs m) m).lookup
        k').getD [] ↔
      v ∈ (m.lookup k').getD [] ∨ (k' ∈ ks ∧ v ∈ vs) := by
  induction ks generalizing m with
  | nil => simp
  | cons k ks ih =>
      rw [List.foldl_cons, ih, lookup_extend, List.mem_cons]
      by_cases hKey : k' = k
      · subst hKey
        simp only [if_true, Option.getD_some, List.mem_append,
          true_or, true_and]
        tauto
      · simp [hKey]

/- A lookup commutes with a change of the values. -/
theorem lookup_map
    {W : Type} {f : K → List V → W} :
    (m.map (fun entry => (entry.1, f entry.1 entry.2))).lookup k =
      (m.lookup k).map (f k) := by
  induction m with
  | nil => rfl
  | cons entry m ih =>
      rcases entry with ⟨j, us⟩
      rw [List.map_cons, List.lookup_cons, List.lookup_cons, ih]
      by_cases hKey : k = j
      · subst hKey
        simp
      · rw [beq_eq_false_iff_ne.mpr hKey]

/- With distinct keys a lookup finds every entry. -/
theorem Distinct.mem_iff
    (hDistinct : Distinct m) :
    (k, vs) ∈ m ↔ m.lookup k = some vs := by
  induction m with
  | nil => simp
  | cons entry m ih =>
      rcases entry with ⟨j, us⟩
      have hSplit := List.nodup_cons.mp hDistinct
      rw [List.mem_cons, lookup_cons]
      by_cases hKey : k = j
      · subst hKey
        have hNone : (k, vs) ∉ m :=
          fun hMem =>
            hSplit.1 (List.mem_map.mpr ⟨_, hMem, rfl⟩)
        simp [hNone, eq_comm]
      · simp [hKey, ih hSplit.2]

------------------------------------------------------------
-- Collected Groups
------------------------------------------------------------

variable {key : V → Option K} {xs : List V}

/- A collected map has each key once. -/
theorem distinct_collect : Distinct (collect key xs) := by
  induction xs using List.reverseRecOn with
  | nil => exact List.nodup_nil
  | append_singleton xs x ih =>
      unfold collect at ih ⊢
      rw [List.foldl_append, List.foldl_cons, List.foldl_nil,
        add]
      cases key x with
      | none => exact ih
      | some k => exact ih.extend

/- The group of a key: its values, if there are any. -/
theorem lookup_collect :
    (collect key xs).lookup k =
      if xs.filter (fun x => key x = some k) = [] then
        none
      else
        some (xs.filter (fun x => key x = some k)) := by
  induction xs using List.reverseRecOn with
  | nil => rfl
  | append_singleton xs x ih =>
      unfold collect at ih ⊢
      rw [List.foldl_append, List.foldl_cons, List.foldl_nil,
        add, List.filter_append]
      cases hKey : key x with
      | none => simp [hKey, ih]
      | some j =>
          by_cases hAsk : k = j
          · subst hAsk
            rw [lookup_extend, if_pos rfl, ih]
            by_cases hNone :
                xs.filter (fun x => key x = some k) = []
            · simp [hKey, hNone]
            · simp [hKey, hNone]
          · have hOther : ¬ j = k := fun h => hAsk h.symm
            rw [lookup_extend, if_neg hAsk, ih]
            simp [hKey, hOther]

/-
  A key has the elements that have it, and is there if there
  are any.
-/
theorem mem_collect_iff :
    (k, vs) ∈ collect key xs ↔
      vs = xs.filter (fun x => key x = some k) ∧
        vs ≠ [] := by
  rw [distinct_collect.mem_iff, lookup_collect]
  by_cases hNone : xs.filter (fun x => key x = some k) = []
  · rw [if_pos hNone, hNone]
    constructor
    · intro h
      cases h
    · rintro ⟨hEq, hNe⟩
      exact absurd hEq hNe
  · rw [if_neg hNone, Option.some_inj]
    constructor
    · intro hEq
      subst hEq
      exact ⟨rfl, hNone⟩
    · rintro ⟨hEq, -⟩
      exact hEq.symm

end Groups

------------------------------------------------------------
-- Orders of Iteration
------------------------------------------------------------

/- An order in which the entries of a map are visited. -/
structure Iteration (A : Type) where
  order : List A → List A
  perm : ∀ xs, (order xs).Perm xs

namespace Iteration

variable {A : Type}

/- An order of iteration loses nothing. -/
theorem mem_order_iff
    {i : Iteration A} {xs : List A} {x : A} :
    x ∈ i.order xs ↔ x ∈ xs :=
  (i.perm xs).mem_iff

/- The entries as they are listed, and from the last one on. -/

/- The order of the list itself. -/
def listed : Iteration A where
  order := id
  perm xs := List.Perm.refl xs

/- Its reverse, which is another. -/
def reversed : Iteration A where
  order := List.reverse
  perm xs := List.reverse_perm xs

end Iteration
