import Mathlib.Data.List.TakeDrop
import Ferrex.Store.Metadata

/-
  The statements of `update_last_accessed`: one for each
  chunk of the ids, with numbered parameters that are bound
  by position.

  Main declarations:
    * `AccessStatement.placeholders`, `params`, `execute`
    * `Sqlite.executeLastAccessed`
    * `Sqlite.executeLastAccessed_eq`
    * `Sqlite.memories_updateLastAccessed`
-/

------------------------------------------------------------
-- Numbered Parameters
------------------------------------------------------------

namespace Ferrex

namespace Store

inductive SqlValue
| text (value : String)
| time (value : DateTime)
deriving DecidableEq

inductive SqlError
| variableNumber (number : Nat)
| invalidParameterCount (given expected : Nat)
deriving DecidableEq

/- A column of times reads a text that is none as the epoch. -/
def SqlValue.asTime : SqlValue → DateTime
| .text _ => 0
| .time value => value

namespace AccessStatement

def maxVariableNumber : Nat := 32766

/- The numbers after the `?` of the `IN` clause. -/
def placeholders (chunk : List String) : List Nat :=
  (List.range' 1 chunk.length).map (fun i => i + 1)

def params
    (now : DateTime)
    (chunk : List String) : List SqlValue :=
  .time now :: chunk.map .text

/- The largest number of a parameter; `SET` uses `?1`. -/
def parameterCount (placeholders : List Nat) : Nat :=
  placeholders.foldr max 1

/- The value of `?n`. -/
def bound
    (params : List SqlValue)
    (n : Nat) : Option SqlValue :=
  params[n - 1]?

/- Some value of the `IN` clause is the id. -/
def Names
    (placeholders : List Nat)
    (params : List SqlValue)
    (id : String) : Prop :=
  ∃ n ∈ placeholders, bound params n = some (.text id)

instance
    (placeholders : List Nat)
    (params : List SqlValue)
    (id : String) :
    Decidable (Names placeholders params id) := by
  unfold Names
  infer_instance

/-
  The numbers are checked when the statement is prepared, the
  values are counted when they are bound.
-/
def execute
    (placeholders : List Nat)
    (params : List SqlValue)
    (rows : List MemoryRow) :
    Except SqlError (List MemoryRow) :=
  let expected := parameterCount placeholders
  if maxVariableNumber < expected then
    .error (.variableNumber expected)
  else if params.length ≠ expected then
    .error (.invalidParameterCount params.length expected)
  else
    .ok
      (Table.update
        (fun r => Names placeholders params r.id)
        (Sqlite.accessRow
          ((bound params 1).elim 0 SqlValue.asTime))
        rows)

------------------------------------------------------------
-- Placeholders and Values
------------------------------------------------------------

variable {now : DateTime} {chunk : List String}

theorem parameterCount_range'
    (start n : Nat) :
    parameterCount
        ((List.range' start n).map (fun i => i + 1)) =
      if n = 0 then 1 else max 1 (start + n) := by
  induction n generalizing start with
  | zero => rfl
  | succ n ih =>
      rw [List.range'_succ, List.map_cons, parameterCount,
        List.foldr_cons, ← parameterCount, ih]
      by_cases hZero : n = 0
      · rw [if_pos hZero, if_neg (Nat.succ_ne_zero n)]
        omega
      · rw [if_neg hZero, if_neg (Nat.succ_ne_zero n)]
        omega

/- A chunk has as many values as its statement has numbers. -/
theorem length_params
    (now : DateTime)
    (chunk : List String) :
    (params now chunk).length =
      parameterCount (placeholders chunk) := by
  rw [placeholders, parameterCount_range', params,
    List.length_cons, List.length_map]
  by_cases hZero : chunk.length = 0
  · rw [if_pos hZero]
    omega
  · rw [if_neg hZero]
    omega

/- The number `i + 2` stands for the id at place `i`. -/
theorem bound_params
    (i : Nat) :
    bound (params now chunk) (i + 2) =
      chunk[i]?.map SqlValue.text := by
  simp [bound, params]

theorem mem_placeholders_iff
    {n : Nat} :
    n ∈ placeholders chunk ↔
      ∃ i, i < chunk.length ∧ n = i + 2 := by
  simp only [placeholders, List.mem_map, List.mem_range'_1]
  constructor
  · rintro ⟨m, hm, rfl⟩
    exact ⟨m - 1, by omega, by omega⟩
  · rintro ⟨i, hi, rfl⟩
    exact ⟨i + 1, by omega, by omega⟩

/- No parameter is shifted: the clause has the chunk's ids. -/
theorem names_iff
    {id : String} :
    Names (placeholders chunk) (params now chunk) id ↔
      id ∈ chunk := by
  rw [List.mem_iff_getElem?]
  constructor
  · rintro ⟨n, hn, hBound⟩
    rcases mem_placeholders_iff.mp hn with ⟨i, _, rfl⟩
    rw [bound_params, Option.map_eq_some_iff] at hBound
    rcases hBound with ⟨id', hId, hText⟩
    exact ⟨i, by rw [hId, SqlValue.text.inj hText]⟩
  · rintro ⟨i, hId⟩
    have hPlace : i < chunk.length :=
      (List.getElem?_eq_some_iff.mp hId).1
    refine ⟨i + 2, mem_placeholders_iff.mpr ⟨i, hPlace, rfl⟩,
      ?_⟩
    rw [bound_params, hId]
    rfl

/- A chunk that is short enough updates the rows it names. -/
theorem execute_eq
    (rows : List MemoryRow)
    (hShort : chunk.length < maxVariableNumber) :
    execute (placeholders chunk) (params now chunk) rows =
      .ok
        (Table.update (fun r => r.id ∈ chunk)
          (Sqlite.accessRow now) rows) := by
  have hCount := length_params now chunk
  have hLength :
      (params now chunk).length = chunk.length + 1 := by
    rw [params, List.length_cons, List.length_map]
  unfold execute
  dsimp only
  rw [if_neg (by omega), if_neg (not_not_intro hCount)]
  simp only [names_iff]
  rfl

end AccessStatement

------------------------------------------------------------
-- All Chunks
------------------------------------------------------------

namespace Sqlite

/- The loop over the chunks; it ends at the first error. -/
def executeLastAccessed
    (db : Sqlite)
    (ids : List String)
    (now : DateTime) : Except SqlError Sqlite := do
  let rows ← (inClauseBatches ids).foldlM
    (fun rows chunk =>
      AccessStatement.execute
        (AccessStatement.placeholders chunk)
        (AccessStatement.params now chunk) rows)
    db.memories
  return { db with memories := rows }

theorem length_toChunksAux
    {α : Type}
    (n : Nat)
    (xs : List α)
    (i : Nat) :
    (List.toChunksAux n xs i).1.length ≤ i ∧
      ∀ chunk ∈ (List.toChunksAux n xs i).2,
        chunk.length ≤ n + 1 := by
  induction xs generalizing i with
  | nil => simp [List.toChunksAux]
  | cons x xs ih =>
      cases i with
      | zero =>
          have hRest := ih n
          simp only [List.toChunksAux, List.mem_cons]
          refine ⟨Nat.le_refl 0, ?_⟩
          rintro chunk (rfl | hChunk)
          · rw [List.length_cons]
            omega
          · exact hRest.2 chunk hChunk
      | succ i =>
          have hRest := ih i
          simp only [List.toChunksAux, List.length_cons]
          exact ⟨by omega, hRest.2⟩

theorem length_inClauseBatches
    {ids chunk : List String}
    (hChunk : chunk ∈ inClauseBatches ids) :
    chunk.length ≤ inClauseBatchSize :=
  (length_toChunksAux (inClauseBatchSize - 1) ids 0).2 chunk
    hChunk

/- The statements do what the update of all rows does. -/
theorem executeLastAccessed_eq
    (db : Sqlite)
    (ids : List String)
    (now : DateTime) :
    db.executeLastAccessed ids now =
      .ok (db.updateLastAccessed ids now) := by
  have hLoop :
      ∀ (chunks : List (List String)) (rows : List MemoryRow),
        (∀ chunk ∈ chunks,
          chunk.length < AccessStatement.maxVariableNumber) →
        chunks.foldlM
            (fun rows chunk =>
              AccessStatement.execute
                (AccessStatement.placeholders chunk)
                (AccessStatement.params now chunk) rows)
            rows =
          .ok
            (chunks.foldl
              (fun rows chunk =>
                Table.update (fun r => r.id ∈ chunk)
                  (accessRow now) rows)
              rows) := by
    intro chunks
    induction chunks with
    | nil => exact fun rows _ => rfl
    | cons chunk chunks ih =>
        intro rows hShort
        rw [List.foldlM_cons,
          AccessStatement.execute_eq rows
            (hShort chunk List.mem_cons_self)]
        exact ih _
          (fun c hc => hShort c (List.mem_cons_of_mem _ hc))
  have hShort :
      ∀ chunk ∈ inClauseBatches ids,
        chunk.length < AccessStatement.maxVariableNumber := by
    intro chunk hChunk
    have hLength := length_inClauseBatches hChunk
    unfold inClauseBatchSize at hLength
    unfold AccessStatement.maxVariableNumber
    omega
  unfold executeLastAccessed
  rw [hLoop (inClauseBatches ids) db.memories hShort]
  rfl

/- Chunks without a common id update a row once at most. -/
theorem foldl_update_of_nodup
    {f : MemoryRow → MemoryRow}
    (hId : ∀ r, (f r).id = r.id)
    (chunks : List (List String))
    (rows : List MemoryRow)
    (hDistinct : chunks.flatten.Nodup) :
    chunks.foldl
        (fun rows chunk =>
          Table.update (fun r => r.id ∈ chunk) f rows)
        rows =
      Table.update (fun r => r.id ∈ chunks.flatten) f rows := by
  induction chunks generalizing rows with
  | nil => simp [Table.update]
  | cons chunk chunks ih =>
      rw [List.flatten_cons, List.nodup_append'] at hDistinct
      rcases hDistinct with ⟨_, hRest, hApart⟩
      rw [List.foldl_cons, ih _ hRest]
      unfold Table.update
      rw [List.map_map]
      apply List.map_congr_left
      intro r _
      by_cases hHere : r.id ∈ chunk
      · have hLater : r.id ∉ chunks.flatten :=
          fun h => hApart hHere h
        simp only [Function.comp, hHere, hId r, hLater,
          List.flatten_cons, List.mem_append, if_true,
          if_false, true_or]
      · simp only [Function.comp, hHere, List.flatten_cons,
          List.mem_append, if_false, false_or]

/- Distinct ids: every named row is updated exactly once. -/
theorem memories_updateLastAccessed
    (db : Sqlite)
    (ids : List String)
    (now : DateTime)
    (hDistinct : ids.Nodup) :
    (db.updateLastAccessed ids now).memories =
      db.memories.map
        (fun r => if r.id ∈ ids then accessRow now r else r) := by
  have hUpdate :=
    foldl_update_of_nodup (f := accessRow now) (fun _ => rfl)
      (inClauseBatches ids) db.memories
      (by rwa [inClauseBatches_flatten])
  rw [inClauseBatches_flatten] at hUpdate
  exact hUpdate

end Sqlite

end Store

end Ferrex
