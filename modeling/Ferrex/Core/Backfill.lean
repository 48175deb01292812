import Ferrex.Core.Admin
import Ferrex.Core.Service

/-
  The backfill of normalized predicates: what it does to the
  rows, that a dry run reports the same, that a second run
  changes nothing, and exactly when it fills every row that
  it scans.

  Main declarations:
    * `MemoryService.filledRow`
    * `MemoryService.memories_backfill`
    * `MemoryService.report_dryRun`
    * `MemoryService.backfill_again`
    * `BackfillComplete`, `backfill_complete_iff`
-/

------------------------------------------------------------
-- The Rows After a Backfill
------------------------------------------------------------

namespace Ferrex

namespace Core

open Store

namespace MemoryService

variable {Vec F : Type}
variable {env : Env Vec F} {service : MemoryService F}
variable {now : MemoryRow → DateTime} {ns : Option String}
variable {db : Sqlite} {x : Sqlite × BackfillReport}
variable {rows : List Memory} {m : Memory} {row : MemoryRow}
variable {pred : String}

/- The value of the row's own normalizer. -/
def normalFor
    (env : Env Vec F)
    (service : MemoryService F)
    (row : MemoryRow)
    (pred : String) : String :=
  (service.normalizer row.namespace).normalize env pred

/- A scanned row, as the backfill leaves it. -/
def filledRow
    (env : Env Vec F)
    (service : MemoryService F)
    (now : MemoryRow → DateTime)
    (row : MemoryRow) : MemoryRow :=
  match row.predicate with
  | none => row
  | some pred =>
      if service.normalFor env row pred = pred then
        row
      else
        Sqlite.normalizeRow (service.normalFor env row pred)
          (now row) row

@[simp] theorem filledRow_id :
    (service.filledRow env now row).id = row.id := by
  unfold filledRow
  split
  · rfl
  · split <;> rfl

theorem filledRow_of_ne
    (hPredicate : row.predicate = some pred)
    (hOther : service.normalFor env row pred ≠ pred) :
    service.filledRow env now row =
      Sqlite.normalizeRow (service.normalFor env row pred)
        (now row) row := by
  unfold filledRow
  rw [hPredicate]
  exact if_neg hOther

theorem filledRow_of_eq
    (hPredicate : row.predicate = some pred)
    (hSame : service.normalFor env row pred = pred) :
    service.filledRow env now row = row := by
  unfold filledRow
  rw [hPredicate]
  exact if_pos hSame

/- One row of the scan changes the row with its id. -/
theorem memories_backfillRow
    (env : Env Vec F)
    (service : MemoryService F)
    (now : MemoryRow → DateTime)
    (hSame :
      ∀ r ∈ x.1.memories, r.id = m.id → r = m.toMemoryRow) :
    (service.backfillRow env false now x m).1.memories =
      Table.update (fun r => r.id = m.id)
        (service.filledRow env now) x.1.memories := by
  have hUpdate :
      ∀ f : MemoryRow → MemoryRow,
        service.filledRow env now m.toMemoryRow =
            f m.toMemoryRow →
          Table.update (fun r => r.id = m.id) f x.1.memories =
            Table.update (fun r => r.id = m.id)
              (service.filledRow env now) x.1.memories := by
    intro f hAt
    apply List.map_congr_left
    intro r hMem
    by_cases hId : r.id = m.id
    · rw [if_pos hId, if_pos hId, hSame r hMem hId, hAt]
    · rw [if_neg hId, if_neg hId]
  have hKeep :
      service.filledRow env now m.toMemoryRow =
          m.toMemoryRow →
        x.1.memories =
          Table.update (fun r => r.id = m.id)
            (service.filledRow env now) x.1.memories := by
    intro hAt
    rw [← hUpdate id hAt]
    unfold Table.update
    simp
  unfold backfillRow
  split
  · rename_i hNone
    apply hKeep
    unfold filledRow
    rw [hNone]
  · rename_i pred hPredicate
    dsimp only
    split
    · rename_i hNormal
      exact hKeep (filledRow_of_eq hPredicate hNormal)
    · rename_i hNormal
      exact hUpdate _ (filledRow_of_ne hPredicate hNormal)

/- The whole scan changes the rows with its ids. -/
theorem memories_foldl
    (hDistinct : (rows.map (fun m => m.id)).Nodup)
    (hSame :
      ∀ m ∈ rows, ∀ r ∈ x.1.memories, r.id = m.id →
        r = m.toMemoryRow) :
    (rows.foldl (service.backfillRow env false now)
        x).1.memories =
      Table.update (fun r => r.id ∈ rows.map (fun m => m.id))
        (service.filledRow env now) x.1.memories := by
  induction rows generalizing x with
  | nil => simp [Table.update]
  | cons m rows ih =>
      rw [List.map_cons, List.nodup_cons] at hDistinct
      have hStep :=
        memories_backfillRow env service now
          (hSame m List.mem_cons_self)
      rw [List.foldl_cons, ih hDistinct.2, hStep]
      · unfold Table.update
        rw [List.map_map]
        apply List.map_congr_left
        intro r _
        by_cases hId : r.id = m.id
        · have hGone :
              ¬ (service.filledRow env now r).id ∈
                rows.map (fun m => m.id) := by
            rw [filledRow_id, hId]
            exact hDistinct.1
          simp only [Function.comp, if_pos hId, if_neg hGone]
          rw [if_pos]
          rw [List.map_cons, hId]
          exact List.mem_cons_self
        · simp [Function.comp, hId]
      · -- The later rows of the scan are as they were.
        intro m' hMem r hRow hId
        rw [hStep] at hRow
        rcases Table.mem_update_iff.mp hRow with
          ⟨r₀, hOld, hEq⟩
        have hKey :
            (service.filledRow env now r₀).id = r₀.id :=
          filledRow_id
        have hOther : r₀.id ≠ m.id := by
          intro hFirst
          apply hDistinct.1
          rw [if_pos hFirst] at hEq
          rw [← hFirst, ← hKey, hEq, hId]
          exact List.mem_map_of_mem hMem
        rw [if_neg hOther] at hEq
        rw [← hEq] at hId ⊢
        exact hSame m' (List.mem_cons_of_mem _ hMem) r₀ hOld hId

theorem memories_backfill
    (hUnique : Table.KeyUnique MemoryRow.id db.memories) :
    (service.backfillNormalizedPredicates env ns false now
        db).1.memories =
      Table.update (fun r => Sqlite.MissesNormalized ns r)
        (service.filledRow env now) db.memories := by
  have hIds :
      (db.semanticRowsMissingNormalizedPredicate ns).map
          (fun m => m.id) =
        (db.memories.filter
          (fun r => Sqlite.MissesNormalized ns r)).map
            MemoryRow.id := by
    unfold Sqlite.semanticRowsMissingNormalizedPredicate
    rw [List.map_map]
    rfl
  unfold backfillNormalizedPredicates
  dsimp only
  rw [memories_foldl]
  · apply List.map_congr_left
    intro r hMem
    rw [hIds]
    have hScanned :
        r.id ∈
            (db.memories.filter
              (fun r => Sqlite.MissesNormalized ns r)).map
                MemoryRow.id ↔
          Sqlite.MissesNormalized ns r := by
      constructor
      · intro hId
        rcases List.mem_map.mp hId with ⟨r', hFound, hSame⟩
        rcases List.mem_filter.mp hFound with ⟨hOld, hMisses⟩
        rw [← hUnique.eq_of_key_eq hOld hMem hSame]
        exact of_decide_eq_true hMisses
      · intro hMisses
        exact List.mem_map_of_mem
          (List.mem_filter.mpr
            ⟨hMem, decide_eq_true hMisses⟩)
    simp only [hScanned]
  · rw [hIds]
    exact hUnique.sublist (List.filter_sublist.map _)
  · intro m hMem r hRow hId
    rcases List.mem_map.mp hMem with ⟨r', hFound, hEq⟩
    subst hEq
    exact hUnique.eq_of_key_eq hRow
      (List.mem_filter.mp hFound).1 hId

------------------------------------------------------------
-- Dry Runs and Second Runs
------------------------------------------------------------

/- A dry run reports the same, and changes nothing. -/
theorem report_dryRun :
    service.backfillNormalizedPredicates env ns true now db =
      (db,
        (service.backfillNormalizedPredicates env ns false now
          db).2) := by
  have hBoth :
      ∀ rows : List Memory, ∀ x y : Sqlite × BackfillReport,
        x.2 = y.2 →
          rows.foldl (service.backfillRow env true now) x =
            (x.1,
              (rows.foldl (service.backfillRow env false now)
                y).2) := by
    intro rows
    induction rows with
    | nil =>
        intro x y hReport
        exact Prod.ext rfl hReport
    | cons m rows ih =>
        intro x y hReport
        have hHead :
            (service.backfillRow env true now x m).1 = x.1 ∧
              (service.backfillRow env true now x m).2 =
                (service.backfillRow env false now y m).2 := by
          unfold backfillRow
          rw [hReport]
          split
          · exact ⟨rfl, hReport⟩
          · dsimp only
            split
            · exact ⟨rfl, hReport⟩
            · exact ⟨rfl, rfl⟩
        rw [List.foldl_cons, List.foldl_cons,
          ih _ _ hHead.2, hHead.1]
  exact hBoth _ _ _ rfl

/- What a filled row still misses, it misses for good. -/
theorem filledRow_again
    {later : MemoryRow → DateTime}
    (hMisses :
      Sqlite.MissesNormalized ns
        (service.filledRow env now row)) :
    service.filledRow env now row = row ∧
      service.filledRow env later row = row := by
  cases hPredicate : row.predicate with
  | none =>
      unfold filledRow
      rw [hPredicate]
      exact ⟨rfl, rfl⟩
  | some pred =>
      by_cases hNormal : service.normalFor env row pred = pred
      · exact ⟨filledRow_of_eq hPredicate hNormal,
          filledRow_of_eq hPredicate hNormal⟩
      · rw [filledRow_of_ne hPredicate hNormal] at hMisses
        cases hMisses.2.1

/- A second run leaves every row as it is. -/
theorem backfill_again
    {later : MemoryRow → DateTime}
    {db' : Sqlite}
    (hUnique : Table.KeyUnique MemoryRow.id db.memories)
    (hFirst :
      (service.backfillNormalizedPredicates env ns false now
        db).1 = db') :
    (service.backfillNormalizedPredicates env ns false later
        db').1.memories = db'.memories := by
  have hRows :
      db'.memories =
        Table.update (fun r => Sqlite.MissesNormalized ns r)
          (service.filledRow env now) db.memories := by
    rw [← hFirst]
    exact memories_backfill hUnique
  have hAgain :
      Table.KeyUnique MemoryRow.id db'.memories := by
    rw [hRows]
    exact hUnique.update (fun _ => filledRow_id)
  rw [memories_backfill hAgain]
  conv_rhs => rw [← List.map_id db'.memories]
  apply List.map_congr_left
  intro r hMem
  rw [hRows] at hMem
  rcases Table.mem_update_iff.mp hMem with ⟨r₀, -, hEq⟩
  by_cases hMisses : Sqlite.MissesNormalized ns r
  · rw [if_pos hMisses]
    by_cases hOld : Sqlite.MissesNormalized ns r₀
    · rw [if_pos hOld] at hEq
      rw [← hEq] at hMisses
      rcases filledRow_again hMisses with ⟨hKept, hLater⟩
      rw [← hEq, hKept]
      exact hLater
    · rw [if_neg hOld] at hEq
      rw [hEq] at hOld
      exact absurd hMisses hOld
  · exact if_neg hMisses

------------------------------------------------------------
-- Complete Backfills
------------------------------------------------------------

/-
  Every row that a backfill scans, and that has a predicate,
  has its normal form afterwards; the conflict lookup finds it
  under the key that a new store of the predicate uses; and a
  second backfill does not scan it.
-/
structure BackfillComplete
    (env : Env Vec F)
    (service : MemoryService F)
    (ns : Option String)
    (db db' : Sqlite) : Prop where
  filled :
    ∀ row ∈ db.memories, Sqlite.MissesNormalized ns row →
      ∀ pred, row.predicate = some pred →
        ∃ row' ∈ db'.memories, row'.id = row.id ∧
          row'.normalizedPredicate =
            some (service.normalFor env row pred)
  found :
    ∀ row ∈ db.memories, Sqlite.MissesNormalized ns row →
      ∀ subject, row.subject = some subject →
        row.tInvalid = none →
          ∀ ctx ctx' : StoreContext Vec F,
            ctx.memoryType = .semantic →
              ctx.normalizer =
                  service.normalizer row.namespace →
                ctx.req.predicate = row.predicate →
                  NormalizePredicate.run env ctx = .ok ctx' →
                    ∃ key,
                      ctx'.normalizedPredicate = some key ∧
                        ∃ m ∈
                          db'.getMemoriesBySubjectPredicate
                            subject key,
                          m.id = row.id
  settled :
    ∀ row ∈ db.memories, Sqlite.MissesNormalized ns row →
      row.predicate ≠ none →
        ∀ m ∈ db'.semanticRowsMissingNormalizedPredicate ns,
          m.id ≠ row.id

/- The key of a new store of a predicate. -/
theorem key_of_run
    {ctx ctx' : StoreContext Vec F}
    (hType : ctx.memoryType = .semantic)
    (hNormalizer :
      ctx.normalizer = service.normalizer row.namespace)
    (hPredicate : ctx.req.predicate = row.predicate)
    (hRun : NormalizePredicate.run env ctx = .ok ctx') :
    ∃ pred, row.predicate = some pred ∧
      ctx'.normalizedPredicate =
        some (service.normalFor env row pred) := by
  unfold NormalizePredicate.run at hRun
  rw [if_neg (not_not.mpr hType)] at hRun
  split at hRun
  · cases hRun
  · rename_i pred hSome
    cases hRun
    refine ⟨pred, hPredicate.symm.trans hSome, ?_⟩
    unfold normalFor
    rw [← hNormalizer]

/- A scanned row is there as the backfill has filled it. -/
theorem eq_filledRow
    {row' : MemoryRow}
    (hUnique : Table.KeyUnique MemoryRow.id db.memories)
    (hMem : row ∈ db.memories)
    (hMisses : Sqlite.MissesNormalized ns row)
    (hNew :
      row' ∈
        (service.backfillNormalizedPredicates env ns false now
          db).1.memories)
    (hId : row'.id = row.id) :
    row' = service.filledRow env now row := by
  rw [memories_backfill hUnique] at hNew
  rcases Table.mem_update_iff.mp hNew with ⟨r, hOld, hEq⟩
  have hSame : r = row := by
    apply hUnique.eq_of_key_eq hOld hMem
    rw [← hId, ← hEq]
    split
    · exact filledRow_id.symm
    · rfl
  rw [hSame, if_pos hMisses] at hEq
  exact hEq.symm

theorem mem_filledRow
    (hUnique : Table.KeyUnique MemoryRow.id db.memories)
    (hMem : row ∈ db.memories)
    (hMisses : Sqlite.MissesNormalized ns row) :
    service.filledRow env now row ∈
      (service.backfillNormalizedPredicates env ns false now
        db).1.memories := by
  rw [memories_backfill hUnique]
  apply Table.mem_update_iff.mpr
  exact ⟨row, hMem, if_pos hMisses⟩

/-
  A backfill is complete if and only if it scans no predicate
  that is its own normal form: such rows are skipped.
-/
theorem backfill_complete_iff
    (hUnique : Table.KeyUnique MemoryRow.id db.memories) :
    BackfillComplete env service ns db
        (service.backfillNormalizedPredicates env ns false now
          db).1 ↔
      ∀ row ∈ db.memories, Sqlite.MissesNormalized ns row →
        ∀ pred, row.predicate = some pred →
          (service.normalizer row.namespace).normalize env
            pred ≠ pred := by
  constructor
  · intro hComplete row hMem hMisses pred hPredicate hNormal
    rcases hComplete.filled row hMem hMisses pred hPredicate
      with ⟨row', hNew, hId, hFilled⟩
    -- The row is still there as it was, without the value.
    have hSame :=
      eq_filledRow hUnique hMem hMisses hNew hId
    rw [filledRow_of_eq hPredicate hNormal] at hSame
    rw [hSame, hMisses.2.1] at hFilled
    cases hFilled
  · intro hOther
    have hFill :
        ∀ row ∈ db.memories, Sqlite.MissesNormalized ns row →
          ∀ pred, row.predicate = some pred →
            service.filledRow env now row =
              Sqlite.normalizeRow
                (service.normalFor env row pred) (now row)
                row := by
      intro row hMem hMisses pred hPredicate
      exact filledRow_of_ne hPredicate
        (hOther row hMem hMisses pred hPredicate)
    constructor
    case filled =>
      intro row hMem hMisses pred hPredicate
      refine ⟨_, mem_filledRow hUnique hMem hMisses,
        filledRow_id, ?_⟩
      rw [hFill row hMem hMisses pred hPredicate]
      rfl
    case found =>
      intro row hMem hMisses subject hSubject hValid ctx ctx'
        hType hNormalizer hPredicate hRun
      rcases key_of_run hType hNormalizer hPredicate hRun with
        ⟨pred, hSome, hKey⟩
      have hNew :
          service.filledRow env now row ∈
            (service.backfillNormalizedPredicates env ns false
              now db).1.memories :=
        mem_filledRow hUnique hMem hMisses
      rw [hFill row hMem hMisses pred hSome] at hNew
      rcases Sqlite.mem_getMemoriesBySubjectPredicate_iff.mpr
        ⟨hNew, hSubject, rfl, hMisses.1, hValid⟩ with
        ⟨m, hLookup, hRow⟩
      refine ⟨_, hKey, m, hLookup, ?_⟩
      rw [hRow]
      rfl
    case settled =>
      intro row hMem hMisses hHas m hAgain hId
      rcases Option.ne_none_iff_exists'.mp hHas with
        ⟨pred, hPredicate⟩
      rcases List.mem_map.mp hAgain with ⟨r, hFound, hEq⟩
      rcases List.mem_filter.mp hFound with ⟨hStill, hStays⟩
      have hStays := of_decide_eq_true hStays
      rw [← hEq] at hId
      have hSame :=
        eq_filledRow hUnique hMem hMisses hStill hId
      rw [hSame, hFill row hMem hMisses pred hPredicate]
        at hStays
      cases hStays.2.1

/- A fact about alice from before predicates were normalized. -/
private def unfilledRow (predicate : String) : MemoryRow where
  id := "m"
  «namespace» := "default"
  memoryType := .semantic
  content := none
  subject := some "alice"
  predicate := some predicate
  object := some "tea"
  confidence := 1
  source := none
  context := none
  createdAt := 0
  updatedAt := 0
  tValid := some 0
  tInvalid := none
  lastAccessed := 0
  lastValidated := none
  accessCount := 0
  normalizedPredicate := none

private def unfilled (predicate : String) : Sqlite :=
  ⟨[unfilledRow predicate], [], [], [], [], []⟩

private theorem normalize_capital :
    (MemoryService.plain.normalizer "default").normalize
      Env.plain "Likes" = "likes" := by
  decide

/- The row is skipped, and no store finds it as a conflict. -/
theorem backfill_skips_normal :
    ¬ BackfillComplete Env.plain MemoryService.plain none
      (unfilled "likes")
      (MemoryService.plain.backfillNormalizedPredicates
        Env.plain none false (fun _ => 1)
        (unfilled "likes")).1 := by
  intro hComplete
  have hSame :
      (MemoryService.plain.backfillNormalizedPredicates
        Env.plain none false (fun _ => 1)
        (unfilled "likes")).1 = unfilled "likes" :=
    rfl
  rw [hSame] at hComplete
  have hMem :
      unfilledRow "likes" ∈ (unfilled "likes").memories :=
    List.mem_singleton_self _
  rcases hComplete.filled _ hMem (by decide) "likes" rfl with
    ⟨row, hOld, -, hFilled⟩
  rw [List.mem_singleton.mp hOld] at hFilled
  cases hFilled

/- A predicate that is not its own normal form is filled in. -/
theorem backfill_complete_iff_capital :
    BackfillComplete Env.plain MemoryService.plain none
      (unfilled "Likes")
      (MemoryService.plain.backfillNormalizedPredicates
        Env.plain none false (fun _ => 1)
        (unfilled "Likes")).1 := by
  have hUnique :
      Table.KeyUnique MemoryRow.id
        (unfilled "Likes").memories :=
    List.nodup_singleton _
  apply (backfill_complete_iff hUnique).mpr
  intro row hMem _ pred hPredicate
  rw [List.mem_singleton.mp hMem] at hPredicate ⊢
  cases hPredicate
  rw [show (unfilledRow "Likes").namespace = "default" from rfl,
    normalize_capital]
  decide

end MemoryService

end Core

end Ferrex
