import Mathlib.Data.List.Dedup
import Mathlib.Data.List.Sort
import Ferrex.Core.Admin
import Ferrex.Core.Service

/-
  The audit of a namespace: with `fix` it removes the memory
  points that have no row, all of them or, past the limit,
  none, and nothing else.

  Main declarations:
    * `World.HasRow`, `World.orphans`
    * `MemoryService.auditReconcile_eq`
    * `AuditRepairs`, `audit_fix_repairs`
-/

------------------------------------------------------------
-- Orphans
------------------------------------------------------------

namespace Ferrex

namespace Core

open Store

variable {Vec F : Type}

namespace World

variable {w : World Vec} {ns id : String}

/- A row of the namespace, valid or not. -/
def HasRow (w : World Vec) (ns id : String) : Prop :=
  ∃ r ∈ w.db.memories, r.namespace = ns ∧ r.id = id

/- Decided by a look at the rows. -/
instance : Decidable (w.HasRow ns id) := by
  unfold HasRow
  infer_instance

/- The list has the ids of the rows with a vector. -/
theorem mem_listVectoredMemoryIds_iff :
    id ∈ w.db.listVectoredMemoryIds ns ↔ w.HasRow ns id := by
  unfold HasRow Sqlite.listVectoredMemoryIds
  simp only [List.mem_map, List.mem_filter, decide_eq_true_eq,
    and_assoc]

/- The memory points of a namespace without a row. -/
def orphans (w : World Vec) (ns : String) : List (Point Vec) :=
  (w.qdrant.memories ns).filter (fun p => ¬ w.HasRow ns p.id)

/- The keys of the points, and the ids of the memories. -/
structure PointsProper
    (env : Env Vec F)
    (w : World Vec)
    (ns : String) : Prop where
  unique : ((w.qdrant.points ns).map Point.id).Nodup
  canonical :
    ∀ p ∈ w.qdrant.memories ns, env.parseUuid p.id = some p.id

variable {p : Point Vec}

/- An orphan is a memory's point without its row. -/
theorem mem_orphans_iff :
    p ∈ w.orphans ns ↔
      p ∈ w.qdrant.points ns ∧ p.payload.IsMemory ∧
        ¬ w.HasRow ns p.id := by
  unfold orphans Qdrant.memories
  simp only [List.mem_filter, decide_eq_true_eq, and_assoc]

/- Points have distinct ids. -/
theorem nodup_memories
    {env : Env Vec F}
    (hProper : w.PointsProper env ns) :
    ((w.qdrant.memories ns).map Point.id).Nodup :=
  hProper.unique.sublist (List.filter_sublist.map _)

/- The ids without a row are those of the orphans. -/
theorem perm_orphans
    {env : Env Vec F} {ids : List String}
    (hProper : w.PointsProper env ns)
    (hIds : ids.Perm ((w.qdrant.memories ns).map Point.id)) :
    (ids.dedup.filter
        (fun id => id ∉ w.db.listVectoredMemoryIds ns)).Perm
      ((w.orphans ns).map Point.id) := by
  have hNodup : ids.Nodup :=
    hIds.nodup_iff.mpr (nodup_memories hProper)
  rw [List.dedup_eq_self.mpr hNodup]
  have hMap :
      (w.orphans ns).map Point.id =
        ((w.qdrant.memories ns).map Point.id).filter
          (fun id => id ∉ w.db.listVectoredMemoryIds ns) := by
    rw [List.filter_map]
    simp only [mem_listVectoredMemoryIds_iff]
    rfl
  rw [hMap]
  exact hIds.filter _

end World

------------------------------------------------------------
-- What the Audit Does
------------------------------------------------------------

namespace MemoryService

variable {env : Env Vec F} {service : MemoryService F}
variable {scroll : ScrollPoints Vec} {order : Iteration String}
variable {fuel fixLimit : Nat} {fix : Bool} {w : World Vec}
variable {name : String}

/-
  What the audit finds, and what comes of it.  `found` are
  the ids of the orphans, in some order.
-/
inductive Audited
    (service : MemoryService F)
    (fix : Bool)
    (fixLimit : Nat)
    (w : World Vec)
    (found : List String) :
    World Vec → Except (CoreError F) AuditReport → Prop
| refused (message : String)
    (hFix : fix = true)
    (hMany : fixLimit < found.length) :
    Audited service fix fixLimit w found w
      (.error (.validation message))
| fixed (sqliteOnly : List String) (qdrant : Qdrant Vec)
    (hFix : fix = true)
    (hFew : found.length ≤ fixLimit)
    (hDelete :
      w.qdrant.deleteByIds service.config.namespace found =
        .ok qdrant) :
    Audited service fix fixLimit w found
      { w with qdrant := qdrant }
      (.ok
        { sqliteOnly := sqliteOnly
          qdrantOnly := []
          fixed := found })
| reported (sqliteOnly : List String)
    (hReport : fix = false) :
    Audited service fix fixLimit w found w
      (.ok
        { sqliteOnly := sqliteOnly
          qdrantOnly := found
          fixed := [] })

/- The audit in one formula, on a scroll that ends. -/
theorem auditReconcile_eq
    (order : Iteration String)
    (fix : Bool)
    (fixLimit : Nat)
    (hScroll : Scrolls scroll)
    (hName : collectionName service.config.namespace = .ok name)
    (hProper : w.PointsProper env service.config.namespace)
    (hFuel :
      (w.qdrant.points service.config.namespace).length <
        fuel) :
    ∃ found w' outcome,
      service.auditReconcile env scroll order fuel fix fixLimit
          w = some (w', outcome) ∧
        found.Perm
          ((w.orphans service.config.namespace).map
            Point.id) ∧
          Audited service fix fixLimit w found w' outcome := by
  rcases Qdrant.scrollMemoryIds_eq hScroll hName hProper.unique
    hProper.canonical hFuel with ⟨ids, hIds, hScrolled⟩
  have hFound :=
    (order.perm _).trans (World.perm_orphans hProper hIds)
  generalize hList :
    order.order
      (ids.dedup.filter
        (fun id =>
          id ∉ w.db.listVectoredMemoryIds
            service.config.namespace)) = found at hFound
  refine ⟨found, ?_⟩
  unfold auditReconcile
  dsimp only
  rw [hScrolled]
  dsimp only
  rw [hList]
  cases hFix : fix with
  | false =>
      exact ⟨_, _, rfl, hFound, .reported _ rfl⟩
  | true =>
      rw [if_pos rfl]
      by_cases hMany : fixLimit < found.length
      · rw [if_pos hMany]
        exact ⟨_, _, rfl, hFound, .refused _ rfl hMany⟩
      · rw [if_neg hMany]
        have hParsed :
            found.filterMap env.parseUuid = found := by
          conv_rhs => rw [← List.filterMap_some (l := found)]
          apply List.filterMap_congr
          intro id hMem
          rcases List.mem_map.mp (hFound.mem_iff.mp hMem) with
            ⟨p, hOrphan, hId⟩
          rw [← hId]
          exact hProper.canonical p
            (List.mem_filter.mp hOrphan).1
        rcases Qdrant.deleteByIds_of_name hName found with
          ⟨qdrant, hDelete⟩
        rw [hParsed, hDelete]
        exact ⟨_, _, rfl, hFound,
          .fixed _ qdrant rfl (Nat.not_lt.mp hMany) hDelete⟩

------------------------------------------------------------
-- Audits Repair
------------------------------------------------------------

/- Only orphans are removed, and they all are. -/
theorem mem_points_fixed_iff
    {ns : String} {found : List String} {qdrant : Qdrant Vec}
    {p : Point Vec}
    (hUnique : ((w.qdrant.points ns).map Point.id).Nodup)
    (hFound : found.Perm ((w.orphans ns).map Point.id))
    (hDelete : w.qdrant.deleteByIds ns found = .ok qdrant) :
    p ∈ qdrant.points ns ↔
      p ∈ w.qdrant.points ns ∧
        (p.payload.IsMemory → w.HasRow ns p.id) := by
  rw [Qdrant.deleteByIds_eq_ok hDelete ns, if_pos rfl,
    Table.mem_delete_iff]
  apply and_congr_right
  intro hPoint
  have hOrphan : p.id ∈ found ↔ p ∈ w.orphans ns := by
    rw [hFound.mem_iff]
    constructor
    · intro hId
      rcases List.mem_map.mp hId with ⟨o, hMem, hSame⟩
      have hOld := (World.mem_orphans_iff.mp hMem).1
      rw [← List.inj_on_of_nodup_map hUnique hOld hPoint hSame]
      exact hMem
    · exact List.mem_map_of_mem
  rw [hOrphan, World.mem_orphans_iff]
  constructor
  · intro hNot hMemory
    by_contra hRow
    exact hNot ⟨hPoint, hMemory, hRow⟩
  · rintro hRow ⟨-, hMemory, hNone⟩
    exact hNone (hRow hMemory)

/-
  The outcome of an audit with `fix`.  `again` is a second
  run, with or without `fix`.
-/
structure AuditRepairs
    (env : Env Vec F)
    (scroll : ScrollPoints Vec)
    (service : MemoryService F)
    (fixLimit : Nat)
    (w w' : World Vec)
    (outcome : Except (CoreError F) AuditReport) : Prop where
  database : w'.db = w.db
  elsewhere :
    ∀ ns, ns ≠ service.config.namespace →
      w'.qdrant.points ns = w.qdrant.points ns
  kept :
    ∀ p ∈ w.qdrant.points service.config.namespace,
      (p.payload.IsMemory →
        w.HasRow service.config.namespace p.id) →
          p ∈ w'.qdrant.points service.config.namespace
  added :
    ∀ p ∈ w'.qdrant.points service.config.namespace,
      p ∈ w.qdrant.points service.config.namespace
  repaired :
    (w.orphans service.config.namespace).length ≤ fixLimit →
      (∃ report, outcome = .ok report) ∧
        ∀ p ∈ w'.qdrant.memories service.config.namespace,
          w'.HasRow service.config.namespace p.id
  refused :
    fixLimit < (w.orphans service.config.namespace).length →
      (∃ message, outcome = .error (.validation message)) ∧
        w' = w
  again :
    (w.orphans service.config.namespace).length ≤ fixLimit →
      ∀ order fuel fix limit,
        (w'.qdrant.points service.config.namespace).length <
            fuel →
          ∃ report,
            service.auditReconcile env scroll order fuel fix
                limit w' = some (w', .ok report) ∧
              report.qdrantOnly = [] ∧ report.fixed = []

/- Where there are no orphans, nothing is found or fixed. -/
theorem audit_clean
    (order : Iteration String)
    (fix : Bool)
    (fixLimit : Nat)
    (hScroll : Scrolls scroll)
    (hName : collectionName service.config.namespace = .ok name)
    (hProper : w.PointsProper env service.config.namespace)
    (hFuel :
      (w.qdrant.points service.config.namespace).length <
        fuel)
    (hClean : w.orphans service.config.namespace = []) :
    ∃ report,
      service.auditReconcile env scroll order fuel fix fixLimit
          w = some (w, .ok report) ∧
        report.qdrantOnly = [] ∧ report.fixed = [] := by
  rcases auditReconcile_eq order fix fixLimit hScroll hName
    hProper hFuel with
    ⟨found, w', outcome, hAudit, hFound, hAudited⟩
  rw [hClean, List.map_nil, List.perm_nil] at hFound
  subst hFound
  cases hAudited with
  | refused message hFix hMany =>
      exact absurd hMany (Nat.not_lt_zero _)
  | fixed sqliteOnly qdrant hFix hFew hDelete =>
      cases hDelete
      exact ⟨_, hAudit, rfl, rfl⟩
  | reported sqliteOnly hReport =>
      exact ⟨_, hAudit, rfl, rfl⟩

/- After the repair, no memory point is without a row. -/
theorem orphans_fixed
    {ns : String} {found : List String} {qdrant : Qdrant Vec}
    (hUnique : ((w.qdrant.points ns).map Point.id).Nodup)
    (hFound : found.Perm ((w.orphans ns).map Point.id))
    (hDelete : w.qdrant.deleteByIds ns found = .ok qdrant) :
    World.orphans { w with qdrant := qdrant } ns = [] := by
  apply List.eq_nil_iff_forall_not_mem.mpr
  intro p hOrphan
  rcases World.mem_orphans_iff.mp hOrphan with
    ⟨hPoint, hMemory, hNone⟩
  exact hNone
    (((mem_points_fixed_iff hUnique hFound hDelete).mp
      hPoint).2 hMemory)

/- To delete orphans keeps the points proper. -/
theorem proper_fixed
    {ns : String} {found : List String} {qdrant : Qdrant Vec}
    (hProper : w.PointsProper env ns)
    (hDelete : w.qdrant.deleteByIds ns found = .ok qdrant) :
    World.PointsProper env { w with qdrant := qdrant } ns := by
  have hPoints := Qdrant.deleteByIds_eq_ok hDelete ns
  rw [if_pos rfl] at hPoints
  constructor
  case unique =>
    dsimp only
    rw [hPoints]
    exact hProper.unique.sublist (List.filter_sublist.map _)
  case canonical =>
    intro p hMemory
    rcases List.mem_filter.mp hMemory with ⟨hPoint, hKind⟩
    dsimp only at hPoint
    rw [hPoints] at hPoint
    exact hProper.canonical p
      (List.mem_filter.mpr
        ⟨(Table.mem_delete_iff.mp hPoint).1, hKind⟩)

/-
  After a fix the two stores agree, or nothing was touched.
-/
theorem audit_fix_repairs
    (hScroll : Scrolls scroll)
    (hName : collectionName service.config.namespace = .ok name)
    (hProper : w.PointsProper env service.config.namespace)
    (hFuel :
      (w.qdrant.points service.config.namespace).length <
        fuel) :
    ∃ w' outcome,
      service.auditReconcile env scroll order fuel true fixLimit
          w = some (w', outcome) ∧
        AuditRepairs env scroll service fixLimit w w'
          outcome := by
  rcases auditReconcile_eq order true fixLimit hScroll hName
    hProper hFuel with
    ⟨found, w', outcome, hAudit, hFound, hAudited⟩
  refine ⟨w', outcome, hAudit, ?_⟩
  have hCount :
      found.length =
        (w.orphans service.config.namespace).length := by
    rw [hFound.length_eq, List.length_map]
  cases hAudited with
  | reported sqliteOnly hReport => cases hReport
  | refused message hFix hMany =>
      rw [hCount] at hMany
      constructor
      case database => rfl
      case elsewhere => exact fun _ _ => rfl
      case kept => exact fun _ hPoint _ => hPoint
      case added => exact fun _ hPoint => hPoint
      case repaired =>
        exact fun hFew => absurd hMany (Nat.not_lt.mpr hFew)
      case refused => exact fun _ => ⟨⟨message, rfl⟩, rfl⟩
      case again =>
        exact fun hFew => absurd hMany (Nat.not_lt.mpr hFew)
  | fixed sqliteOnly qdrant hFix hFew hDelete =>
      rw [hCount] at hFew
      have hPoints := Qdrant.deleteByIds_eq_ok hDelete
      have hClean :=
        orphans_fixed hProper.unique hFound hDelete
      constructor
      case database => rfl
      case elsewhere =>
        intro ns hOther
        dsimp only
        rw [hPoints ns, if_neg hOther]
      case kept =>
        intro p hPoint hRow
        exact (mem_points_fixed_iff hProper.unique hFound
          hDelete).mpr ⟨hPoint, hRow⟩
      case added =>
        intro p hPoint
        exact ((mem_points_fixed_iff hProper.unique hFound
          hDelete).mp hPoint).1
      case repaired =>
        intro _
        refine ⟨⟨_, rfl⟩, ?_⟩
        intro p hMemory
        rcases List.mem_filter.mp hMemory with ⟨hPoint, hKind⟩
        exact ((mem_points_fixed_iff hProper.unique hFound
          hDelete).mp hPoint).2 (of_decide_eq_true hKind)
      case refused =>
        exact fun hMany => absurd hMany (Nat.not_lt.mpr hFew)
      case again =>
        intro _ order' fuel' fix' limit' hFuel'
        exact audit_clean order' fix' limit' hScroll hName
          (proper_fixed hProper hDelete) hFuel' hClean

------------------------------------------------------------
-- An Audit to Run
------------------------------------------------------------

/- A scroll in the order of the ids. -/
def plainScroll : ScrollPoints Vec :=
  fun points limit offset =>
    let ids :=
      (points.map Point.id).insertionSort (fun a b => a ≤ b)
    Paging.page limit
      (match offset with
        | none => ids
        | some first => ids.dropWhile (fun id => id ≠ first))

/- The plain scroll is one that the audit can rely on. -/
theorem scrolls_plainScroll :
    Scrolls (plainScroll : ScrollPoints Vec) := by
  intro points limit hUnique _
  have hPerm :
      ((points.map Point.id).insertionSort
        (fun a b => a ≤ b)).Perm (points.map Point.id) :=
    List.perm_insertionSort _ _
  refine ⟨_, hPerm, rfl, ?_⟩
  intro front first rest hListing
  have hNodup := hPerm.nodup_iff.mpr hUnique
  rw [hListing, List.nodup_append] at hNodup
  unfold plainScroll
  dsimp only
  rw [hListing, List.dropWhile_append_of_pos]
  · rw [List.dropWhile_cons_of_neg (by simp)]
  · intro id hMem
    simpa using
      hNodup.2.2 id hMem first List.mem_cons_self

/- A superseded memory, an orphan, and an entity. -/
private def auditedPoints : List (Point String) :=
  let note (n : Nat) : Payload :=
    .memory (Env.plain.uuid n) .episodic "default" "" [] 0
  [⟨Env.plain.uuid 1, "", "", note 1⟩,
    ⟨Env.plain.uuid 2, "", "", note 2⟩,
    ⟨"e", "", "", .entity "e" "Ada" "default"⟩]

/- The row of the example. -/
private def auditedRow : MemoryRow where
  id := Env.plain.uuid 1
  «namespace» := "default"
  memoryType := .episodic
  content := some "tea"
  subject := none
  predicate := none
  object := none
  confidence := 1
  source := none
  context := none
  createdAt := 0
  updatedAt := 1
  tValid := none
  tInvalid := some 1
  lastAccessed := 0
  lastValidated := none
  accessCount := 0
  normalizedPredicate := none

/- Its database and its points. -/
private def audited : World String where
  db := ⟨[auditedRow], [], [], [], [], []⟩
  qdrant :=
    ⟨fun name =>
      if name = "ferrex_default" then auditedPoints else []⟩
  clock := 2
  nextUuid := 3

/- The points are proper. -/
private theorem proper_audited :
    audited.PointsProper Env.plain "default" := by
  constructor
  case unique => decide
  case canonical =>
    intro p hMem
    have hPoint : p ∈ auditedPoints.take 2 := hMem
    rcases List.mem_cons.mp hPoint with hFirst | hSecond
    · rw [hFirst]
      exact Env.plain.parseUuid_uuid 1
    · rw [List.mem_singleton.mp hSecond]
      exact Env.plain.parseUuid_uuid 2

/- One orphan is found and deleted. -/
theorem audit_fix_repairs_orphan :
    ∃ w' outcome,
      MemoryService.plain.auditReconcile Env.plain plainScroll
          .listed 4 true 1 audited = some (w', outcome) ∧
        AuditRepairs Env.plain plainScroll MemoryService.plain 1
          audited w' outcome :=
  audit_fix_repairs scrolls_plainScroll rfl proper_audited
    (by decide)

end MemoryService

end Core

end Ferrex
