import Mathlib.Data.List.Basic
import Mathlib.Data.List.Nodup

/-
  Tables as lists of rows with a key: insertion that refuses
  a key in use, insertion that replaces, updates and
  deletions by a condition on the rows.

  Main declarations:
    * `Table.insert`
    * `Table.upsert`
    * `Table.update`
    * `Table.delete`
    * `Table.KeyUnique` and its preservation by each of them
-/

------------------------------------------------------------
-- Operations
------------------------------------------------------------

namespace Table

variable {Row Key : Type} [DecidableEq Key]

/- Some row of the table carries the key. -/
def HasKey
    (key : Row → Key)
    (k : Key)
    (rows : List Row) : Prop :=
  ∃ r ∈ rows, key r = k

instance
    (key : Row → Key)
    (k : Key)
    (rows : List Row) :
    Decidable (HasKey key k rows) := by
  unfold HasKey
  infer_instance

/- Insert a row, or fail when its key is in use. -/
def insert
    (key : Row → Key)
    (row : Row)
    (rows : List Row) : Option (List Row) :=
  if HasKey key (key row) rows then
    none
  else
    some (rows ++ [row])

/- Delete the rows that meet a condition. -/
def delete
    (p : Row → Prop) [DecidablePred p]
    (rows : List Row) : List Row :=
  rows.filter (fun r => ¬ p r)

/- Insert a row in place of any row with its key. -/
def upsert
    (key : Row → Key)
    (row : Row)
    (rows : List Row) : List Row :=
  delete (fun r => key r = key row) rows ++ [row]

/- Change the rows that meet a condition. -/
def update
    (p : Row → Prop) [DecidablePred p]
    (f : Row → Row)
    (rows : List Row) : List Row :=
  rows.map (fun r => if p r then f r else r)

------------------------------------------------------------
-- Membership
------------------------------------------------------------

variable {key : Row → Key} {row r : Row}
variable {rows rows' : List Row} {k : Key}
variable {p : Row → Prop} [DecidablePred p] {f : Row → Row}

/- An insertion succeeds only on a fresh key. -/
theorem insert_eq_some
    (h : insert key row rows = some rows') :
    ¬ HasKey key (key row) rows ∧
      rows' = rows ++ [row] := by
  unfold insert at h
  split at h
  · cases h
  · rename_i hFresh
    exact ⟨hFresh, (Option.some.inj h).symm⟩

/- A fresh key can be inserted. -/
theorem insert_of_fresh
    (row : Row)
    (h : ¬ HasKey key (key row) rows) :
    insert key row rows = some (rows ++ [row]) := by
  simp [insert, h]

@[simp] theorem mem_delete_iff :
    r ∈ delete p rows ↔ r ∈ rows ∧ ¬ p r := by
  simp [delete]

@[simp] theorem mem_upsert_iff :
    r ∈ upsert key row rows ↔
      r = row ∨ (r ∈ rows ∧ key r ≠ key row) := by
  simp [upsert, or_comm]

@[simp] theorem mem_update_iff :
    r ∈ update p f rows ↔
      ∃ r₀ ∈ rows, (if p r₀ then f r₀ else r₀) = r := by
  simp [update]

/- Updates that keep the key keep every key of the table. -/
omit [DecidableEq Key] in
theorem hasKey_update_iff
    (hKey : ∀ r, key (f r) = key r) :
    HasKey key k (update p f rows) ↔
      HasKey key k rows := by
  have hSame :
      ∀ r, key (if p r then f r else r) = key r := by
    intro r
    by_cases hp : p r <;> simp [hp, hKey]
  simp [HasKey, hSame]

/-
  An update that leaves the rows of a selection as they are,
  and puts no other row into it, leaves the selection alone.
-/
omit [DecidableEq Key] in
theorem filter_update
    {q : Row → Bool}
    (hIn : ∀ r ∈ rows, q r = true → p r → f r = r)
    (hOut : ∀ r ∈ rows, q r = false → q (f r) = false) :
    (update p f rows).filter q = rows.filter q := by
  induction rows with
  | nil => rfl
  | cons r rows ih =>
      have hRest :=
        ih (fun x hx => hIn x (by simp [hx]))
          (fun x hx => hOut x (by simp [hx]))
      have hHead : q (if p r then f r else r) = q r ∧
          (q r = true → (if p r then f r else r) = r) := by
        by_cases hp : p r
        · rw [if_pos hp]
          cases hq : q r with
          | true =>
              have hSame := hIn r (by simp) hq hp
              exact ⟨by rw [hSame, hq], fun _ => hSame⟩
          | false =>
              exact ⟨hOut r (by simp) hq, by simp⟩
        · rw [if_neg hp]
          exact ⟨rfl, fun _ => rfl⟩
      simp only [update, List.map_cons] at hRest ⊢
      rw [List.filter_cons, List.filter_cons, hHead.1, hRest]
      split
      · rename_i hq
        rw [hHead.2 hq]
      · rfl

/-
  An update that takes its rows out of a selection leaves
  the rest of the selection.
-/
omit [DecidableEq Key] in
theorem filter_update_out
    {q : Row → Bool}
    (hOut : ∀ r, q (f r) = false) :
    (update p f rows).filter q =
      rows.filter (fun r => q r && !decide (p r)) := by
  induction rows with
  | nil => rfl
  | cons r rows ih =>
      simp only [update, List.map_cons] at ih ⊢
      rw [List.filter_cons, List.filter_cons, ih]
      by_cases hp : p r <;> simp [hp, hOut]

------------------------------------------------------------
-- Unique Keys
------------------------------------------------------------

/- No two rows carry one key. -/
def KeyUnique
    (key : Row → Key)
    (rows : List Row) : Prop :=
  (rows.map key).Nodup

namespace KeyUnique

/- Rows of a table with unique keys are equal by key. -/
omit [DecidableEq Key] in
theorem eq_of_key_eq
    {r₁ r₂ : Row}
    (hUnique : KeyUnique key rows)
    (h₁ : r₁ ∈ rows)
    (h₂ : r₂ ∈ rows)
    (hKey : key r₁ = key r₂) :
    r₁ = r₂ :=
  List.inj_on_of_nodup_map hUnique h₁ h₂ hKey

/- Appending a row with a fresh key keeps keys unique. -/
omit [DecidableEq Key] in
theorem append
    (hUnique : KeyUnique key rows)
    (hFresh : ¬ HasKey key (key row) rows) :
    KeyUnique key (rows ++ [row]) := by
  unfold KeyUnique at *
  rw [List.map_append, List.nodup_append]
  refine ⟨hUnique, by simp, ?_⟩
  intro a ha b hb hEq
  rcases List.mem_map.mp ha with ⟨r, hr, rfl⟩
  have hb' : b = key row := by simpa using hb
  exact hFresh ⟨r, hr, by rw [hEq, hb']⟩

theorem insert
    (hUnique : KeyUnique key rows)
    (h : insert key row rows = some rows') :
    KeyUnique key rows' := by
  rcases insert_eq_some h with ⟨hFresh, rfl⟩
  exact hUnique.append hFresh

omit [DecidableEq Key] in
theorem delete
    (hUnique : KeyUnique key rows) :
    KeyUnique key (delete p rows) := by
  unfold KeyUnique Table.delete at *
  exact hUnique.sublist
    (List.filter_sublist.map key)

theorem upsert
    (hUnique : KeyUnique key rows) :
    KeyUnique key (upsert key row rows) := by
  apply (hUnique.delete).append
  simp [HasKey]

omit [DecidableEq Key] in
theorem update
    (hUnique : KeyUnique key rows)
    (hKey : ∀ r, key (f r) = key r) :
    KeyUnique key (update p f rows) := by
  have hMap :
      (Table.update p f rows).map key = rows.map key := by
    simp only [Table.update, List.map_map]
    apply List.map_congr_left
    intro r _
    by_cases hp : p r <;> simp [hp, hKey]
  simpa [KeyUnique, hMap] using hUnique

end KeyUnique

end Table
