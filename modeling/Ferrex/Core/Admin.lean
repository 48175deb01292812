import Ferrex.Core.Store
import Ferrex.Lib.Groups

/-
  The administration calls that repair the stores: the
  backfill of normalized predicates, and the audit of the
  points of a namespace against its rows.

  Main declarations:
    * `BackfillReport`, `AuditReport`
    * `MemoryService.backfillNormalizedPredicates`
    * `MemoryService.auditReconcile`
-/

------------------------------------------------------------
-- Reports
------------------------------------------------------------

namespace Ferrex

namespace Core

open Store

/- What a backfill has looked at and what it has changed. -/
structure BackfillReport where
  scanned : Nat
  updated : Nat
deriving DecidableEq

/-
  What an audit has found on one side only, and what it has
  mended.
-/
structure AuditReport where
  sqliteOnly : List String
  qdrantOnly : List String
  fixed : List String
deriving DecidableEq

namespace MemoryService

variable {Vec F : Type}

------------------------------------------------------------
-- Backfill
------------------------------------------------------------

/-
  One row of the scan: a predicate that is its own normal
  form is skipped.  `now` is the time of the row's update.
-/
def backfillRow
    (env : Env Vec F)
    (service : MemoryService F)
    (dryRun : Bool)
    (now : MemoryRow → DateTime)
    (result : Sqlite × BackfillReport)
    (row : Memory) : Sqlite × BackfillReport :=
  match row.predicate with
  | none => result
  | some pred =>
      let normalized :=
        (service.normalizer row.namespace).normalize env pred
      if normalized = pred then
        result
      else
        let report :=
          { result.2 with updated := result.2.updated + 1 }
        if dryRun then
          (result.1, report)
        else
          (result.1.setNormalizedPredicate row.id normalized
            (now row.toMemoryRow), report)

/-
  Each row without a normal form gets one, unless its
  predicate is in normal form already.
-/
def backfillNormalizedPredicates
    (env : Env Vec F)
    (service : MemoryService F)
    (ns : Option String)
    (dryRun : Bool)
    (now : MemoryRow → DateTime)
    (db : Sqlite) : Sqlite × BackfillReport :=
  let rows := db.semanticRowsMissingNormalizedPredicate ns
  rows.foldl (service.backfillRow env dryRun now)
    (db, { scanned := rows.length, updated := 0 })

------------------------------------------------------------
-- Audit
------------------------------------------------------------

/-
  The points of the namespace against its rows, the two read
  one after the other.  `order` is that of a walk through the
  difference of two sets, and `fuel` bounds the pages of the
  scroll.
-/
def auditReconcile
    (env : Env Vec F)
    (scroll : ScrollPoints Vec)
    (order : Iteration String)
    (fuel : Nat)
    (service : MemoryService F)
    (fix : Bool)
    (fixLimit : Nat)
    (w : World Vec) :
    Option (World Vec × Except (CoreError F) AuditReport) :=
  let ns := service.config.namespace
  match w.qdrant.scrollMemoryIds scroll env.parseUuid fuel ns
  with
  | none => none
  | some (.error e) => some (w, .error (.store e))
  | some (.ok qdrantIds) =>
      let sqliteIds := w.db.listVectoredMemoryIds ns
      let qdrantOnly :=
        order.order
          (qdrantIds.dedup.filter (fun id => id ∉ sqliteIds))
      let sqliteOnly :=
        order.order
          (sqliteIds.dedup.filter (fun id => id ∉ qdrantIds))
      if fix then
        let count := qdrantOnly.length
        if fixLimit < count then
          some (w, .error (.validation
            s!"audit refuses to auto-fix {count} qdrant-only ids (limit {fixLimit})"))
        else
          match
            w.qdrant.deleteByIds ns
              (qdrantOnly.filterMap env.parseUuid)
          with
          | .error e => some (w, .error (.store e))
          | .ok qdrant =>
              some ({ w with qdrant := qdrant },
                .ok
                  { sqliteOnly := sqliteOnly
                    qdrantOnly := []
                    fixed := qdrantOnly })
      else
        some (w,
          .ok
            { sqliteOnly := sqliteOnly
              qdrantOnly := qdrantOnly
              fixed := [] })

end MemoryService

end Core

end Ferrex
