import Mathlib.Data.List.Sort
import Ferrex.Store.Schema

/-
  The metadata store: the SQL statements of the store,
  forget, entity and recovery paths as functions on the
  tables.  A statement that a constraint refuses gives the
  error; a transaction that fails leaves no new database.

  Main declarations:
    * `Sqlite.commitMemoryWrite` and `Sqlite.completeOp`
    * `Sqlite.getMemory`, `Sqlite.deleteMemories`
    * `Sqlite.getMemoriesBySubjectPredicate`
    * `Sqlite.getMemoriesByIds`, `Sqlite.timelineByEntity`
    * `Sqlite.updateLastAccessed`, `updateLastValidated`
    * `Sqlite.setNormalizedPredicate`
    * `Sqlite.semanticRowsMissingNormalizedPredicate`
    * `Sqlite.listVectoredMemoryIds`
    * `Sqlite.insertPendingOp`, `Sqlite.listPendingOps`
    * `Sqlite.commitMemoryWrite_eq_ok`
-/

------------------------------------------------------------
-- Memory Statements
------------------------------------------------------------

namespace Ferrex

namespace Store

namespace Sqlite

/- A memory's row, refused if its id is there. -/
def insertMemoryIn
    (db : Sqlite)
    (memory : Memory) : Except StoreError Sqlite :=
  match Table.insert MemoryRow.id memory.toMemoryRow
      db.memories with
  | none =>
      .error (.sqlite
        "UNIQUE constraint failed: memories.id")
  | some rows => .ok { db with memories := rows }

/-
  `INSERT OR IGNORE`: a link that exists is left alone, but
  a missing memory or entity is still refused.
-/
def linkMemoryEntityIn
    (db : Sqlite)
    (memoryId entityId : String) :
    Except StoreError Sqlite :=
  if (memoryId, entityId) ∈ db.memoryEntities then
    .ok db
  else if
      Table.HasKey MemoryRow.id memoryId db.memories ∧
        Table.HasKey Entity.id entityId db.entities then
    .ok { db with
      memoryEntities :=
        db.memoryEntities ++ [(memoryId, entityId)] }
  else
    .error (.sqlite "FOREIGN KEY constraint failed")

/- The columns that `invalidate_memory_in` sets. -/
def invalidateRow
    (t : DateTime)
    (row : MemoryRow) : MemoryRow :=
  { row with tInvalid := some t, updatedAt := t }

/- An invalidation keeps the id. -/
@[simp] theorem invalidateRow_id
    (t : DateTime)
    (row : MemoryRow) :
    (invalidateRow t row).id = row.id :=
  rfl

/- The `WHERE` clause is the id alone: no other check. -/
def invalidateMemoryIn
    (db : Sqlite)
    (id : String)
    (tInvalid : DateTime) : Sqlite :=
  { db with
    memories :=
      Table.update (fun r => r.id = id)
        (invalidateRow tInvalid) db.memories }

/- The names of the entities that a memory is linked to. -/
def getEntityNamesForMemory
    (db : Sqlite)
    (memoryId : String) : List String :=
  (db.entities.filter
    (fun e => (memoryId, e.id) ∈ db.memoryEntities)).map
    Entity.name

/- The memory with this id. -/
def getMemory
    (db : Sqlite)
    (id : String) : Option Memory :=
  (db.memories.find? (fun r => r.id = id)).map
    (fun r => ⟨r, db.getEntityNamesForMemory id⟩)

/- Deleting a memory deletes its entity links with it. -/
def deleteMemories
    (db : Sqlite)
    (ids : List String) : Sqlite :=
  { db with
    memories :=
      Table.delete (fun r => r.id ∈ ids) db.memories
    memoryEntities :=
      Table.delete (fun l => l.1 ∈ ids)
        db.memoryEntities }

/-
  The names of an aggregated column: `GROUP_CONCAT` with the
  unit separator, split again at every unit separator.
-/
def splitAggregated : List String → List String
| [] => []
| names =>
    ((List.intercalate ['\x1f']
      (names.map String.toList)).splitOn '\x1f').map
      String.ofList

/-
  A valid semantic row of a subject and a normalized
  predicate, in any namespace.
-/
def MatchesFact
    (subject predicate : String)
    (r : MemoryRow) : Prop :=
  r.subject = some subject ∧
    r.normalizedPredicate = some predicate ∧
    r.memoryType = .semantic ∧
    r.tInvalid = none

/- Decided by comparing the columns. -/
instance
    (subject predicate : String)
    (r : MemoryRow) :
    Decidable (MatchesFact subject predicate r) := by
  unfold MatchesFact
  infer_instance

/- The valid memories that state this of the subject. -/
def getMemoriesBySubjectPredicate
    (db : Sqlite)
    (subject predicate : String) : List Memory :=
  (db.memories.filter
    (fun r => MatchesFact subject predicate r)).map
    (fun r =>
      ⟨r, splitAggregated
        (db.getEntityNamesForMemory r.id)⟩)

/- SQLite takes so many parameters at a time. -/
def inClauseBatchSize : Nat := 500

/- The ids in batches, each for one `IN` clause. -/
def inClauseBatches
    (ids : List String) : List (List String) :=
  (List.toChunksAux (inClauseBatchSize - 1) ids 0).2

/- The rows of the ids, with their names split again. -/
def getMemoriesByIds
    (db : Sqlite)
    (ids : List String) : List Memory :=
  (inClauseBatches ids).flatMap
    (fun batch =>
      (db.memories.filter (fun r => r.id ∈ batch)).map
        (fun r =>
          ⟨r, splitAggregated
            (db.getEntityNamesForMemory r.id)⟩))

/- A row as the readers of many rows give it. -/
def aggregated (db : Sqlite) (r : MemoryRow) : Memory :=
  ⟨r, splitAggregated (db.getEntityNamesForMemory r.id)⟩

/- A negative limit is none. -/
def applyLimit
    {α : Type}
    (limit : Int)
    (rows : List α) : List α :=
  if limit < 0 then rows else rows.take limit.toNat

/- The memories of an entity, newest first. -/
def timelineByEntity
    (db : Sqlite)
    (entityId ns : String)
    (limit : Int)
    (includeInvalidated : Bool)
    (types : Option (List MemoryType)) : List Memory :=
  let typeList := types.getD []
  (applyLimit limit
    ((db.memories.filter
      (fun r =>
        (r.id, entityId) ∈ db.memoryEntities ∧
          r.namespace = ns ∧
          (includeInvalidated = true ∨ r.tInvalid.isNone) ∧
          (typeList.isEmpty ∨ r.memoryType ∈ typeList))
      ).insertionSort
        (fun a b =>
          b.tValid.getD b.createdAt ≤
            a.tValid.getD a.createdAt))).map db.aggregated

/- An `UPDATE` of the rows of the ids, batch by batch. -/
def updateBatches
    (db : Sqlite)
    (f : MemoryRow → MemoryRow)
    (ids : List String) : Sqlite :=
  { db with
    memories :=
      (inClauseBatches ids).foldl
        (fun rows batch =>
          Table.update (fun r => r.id ∈ batch) f rows)
        db.memories }

/- One more access. -/
def accessRow
    (now : DateTime)
    (row : MemoryRow) : MemoryRow :=
  { row with
    lastAccessed := now
    accessCount := row.accessCount + 1 }

/- The access is counted on each row named. -/
def updateLastAccessed
    (db : Sqlite)
    (ids : List String)
    (now : DateTime) : Sqlite :=
  db.updateBatches (accessRow now) ids

/- A row that was confirmed at this time. -/
def validateRow
    (now : DateTime)
    (row : MemoryRow) : MemoryRow :=
  { row with lastValidated := some now }

/- The rows named are confirmed. -/
def updateLastValidated
    (db : Sqlite)
    (ids : List String)
    (now : DateTime) : Sqlite :=
  db.updateBatches (validateRow now) ids

/- The columns that `set_normalized_predicate` sets. -/
def normalizeRow
    (normalized : String)
    (now : DateTime)
    (row : MemoryRow) : MemoryRow :=
  { row with
    normalizedPredicate := some normalized
    updatedAt := now }

/- The predicate's normal form, set by hand. -/
def setNormalizedPredicate
    (db : Sqlite)
    (id normalized : String)
    (now : DateTime) : Sqlite :=
  { db with
    memories :=
      Table.update (fun r => r.id = id)
        (normalizeRow normalized now) db.memories }

/-
  A semantic row without a normalized predicate, in one
  namespace or in all of them.
-/
def MissesNormalized
    (ns : Option String)
    (r : MemoryRow) : Prop :=
  r.memoryType = .semantic ∧
    r.normalizedPredicate = none ∧
    ∀ n ∈ ns, r.namespace = n

/- Decided by looking at the columns. -/
instance
    (ns : Option String)
    (r : MemoryRow) :
    Decidable (MissesNormalized ns r) := by
  unfold MissesNormalized
  infer_instance

/- The rows that a backfill has to look at. -/
def semanticRowsMissingNormalizedPredicate
    (db : Sqlite)
    (ns : Option String) : List Memory :=
  (db.memories.filter (fun r => MissesNormalized ns r)).map
    (fun r => ⟨r, []⟩)

/- The rows of a namespace, valid or not. -/
def listVectoredMemoryIds
    (db : Sqlite)
    (ns : String) : List String :=
  (db.memories.filter (fun r => r.namespace = ns)).map
    MemoryRow.id

------------------------------------------------------------
-- Journal Statements
------------------------------------------------------------

/- An operation's row, refused if its id is there. -/
def insertPendingOp
    (db : Sqlite)
    (op : PendingOp) : Except StoreError Sqlite :=
  match Table.insert PendingOp.opId op db.pendingOps with
  | none =>
      .error (.sqlite
        "UNIQUE constraint failed: pending_ops.op_id")
  | some rows => .ok { db with pendingOps := rows }

/- The point of this operation has been written. -/
def markPendingOpQdrantWritten
    (db : Sqlite)
    (opId : String) : Sqlite :=
  { db with
    pendingOps :=
      Table.update (fun op => op.opId = opId)
        (fun op => { op with qdrantWritten := true })
        db.pendingOps }

/- The operation is done, or undone. -/
def clearPendingOp
    (db : Sqlite)
    (opId : String) : Sqlite :=
  { db with
    pendingOps :=
      Table.delete (fun op => op.opId = opId)
        db.pendingOps }

/- The journal in the order of `started_at`. -/
def listPendingOps (db : Sqlite) : List PendingOp :=
  db.pendingOps.insertionSort
    (fun a b => a.startedAt ≤ b.startedAt)

/- The operation with this id has been completed before. -/
def isOpCompleted
    (db : Sqlite)
    (opId : String) : Bool :=
  decide (Table.HasKey CompletedOp.opId opId
    db.completedOps)

/-
  The operation leaves the journal for the list of those
  completed.
-/
def completeOpIn
    (db : Sqlite)
    (op : CompletedOp) : Sqlite :=
  { db with
    completedOps :=
      Table.upsert CompletedOp.opId op db.completedOps
    pendingOps :=
      Table.delete (fun p => p.opId = op.opId)
        db.pendingOps }

/- The completion in a transaction of its own. -/
def completeOp
    (db : Sqlite)
    (op : CompletedOp) : Sqlite :=
  db.completeOpIn op

/-
  One transaction: the new row, its entity links, the
  invalidations and the completion of the op, or nothing.
-/
def commitMemoryWrite
    (db : Sqlite)
    (memory : Memory)
    (entityIds invalidateIds : List String)
    (tInvalid : DateTime)
    (completed : CompletedOp) :
    Except StoreError Sqlite := do
  let db ← db.insertMemoryIn memory
  let db ← entityIds.foldlM
    (fun db entityId =>
      db.linkMemoryEntityIn memory.id entityId) db
  let db := invalidateIds.foldl
    (fun db id => db.invalidateMemoryIn id tInvalid) db
  return db.completeOpIn completed

------------------------------------------------------------
-- Entity Statements
------------------------------------------------------------

/- An entity's row, refused if its id is there. -/
def insertEntity
    (db : Sqlite)
    (entity : Entity) : Except StoreError Sqlite :=
  if Table.HasKey Entity.name entity.name db.entities then
    .error (.sqlite
      "UNIQUE constraint failed: entities.name")
  else
    match Table.insert Entity.id { entity with aliases := [] }
        db.entities with
    | none =>
        .error (.sqlite
          "UNIQUE constraint failed: entities.id")
    | some rows =>
        .ok { db with
          entities := rows
          entityAliases :=
            db.entityAliases ++
              (entity.aliases.dedup.map
                (fun a => (entity.id, a))) }

/- The other names of an entity. -/
def aliasesOf
    (db : Sqlite)
    (entityId : String) : List String :=
  (db.entityAliases.filter
    (fun a => a.1 = entityId)).map Prod.snd

/- Canonical name first, then the alias table. -/
def getEntityByName
    (db : Sqlite)
    (name : String) : Option Entity :=
  let byName :=
    db.entities.find? (fun e => e.name = name)
  let byAlias :=
    db.entities.find?
      (fun e => (e.id, name) ∈ db.entityAliases)
  (byName.or byAlias).map
    (fun e => { e with aliases := db.aliasesOf e.id })

/- All entities, with their names. -/
def getAllEntities (db : Sqlite) : List Entity :=
  db.entities.map
    (fun e =>
      { e with
        aliases := splitAggregated (db.aliasesOf e.id) })

/- One more name for an entity that is there. -/
def addEntityAlias
    (db : Sqlite)
    (entityId «alias» : String)
    (now : DateTime) : Except StoreError Sqlite :=
  if Table.HasKey Entity.id entityId db.entities then
    .ok { db with
      entities :=
        Table.update (fun e => e.id = entityId)
          (fun e => { e with updatedAt := now })
          db.entities
      entityAliases :=
        if (entityId, «alias») ∈ db.entityAliases then
          db.entityAliases
        else
          db.entityAliases ++ [(entityId, «alias»)] }
  else
    .error (.sqlite "FOREIGN KEY constraint failed")

------------------------------------------------------------
-- Effects of the Statements
------------------------------------------------------------

variable {db db' : Sqlite}

/- The memory row with an id, when there is one. -/
theorem getMemory_eq_some
    {id : String} {memory : Memory}
    (h : db.getMemory id = some memory) :
    memory.toMemoryRow ∈ db.memories ∧ memory.id = id := by
  rcases Option.map_eq_some_iff.mp h with ⟨row, hRow, rfl⟩
  exact ⟨List.mem_of_find?_eq_some hRow,
    by simpa using List.find?_some hRow⟩

/- No row carries an id that the lookup does not find. -/
theorem getMemory_eq_none
    {id : String}
    (h : db.getMemory id = none) :
    ¬ Table.HasKey MemoryRow.id id db.memories := by
  rintro ⟨row, hRow, hId⟩
  have hAll := List.find?_eq_none.mp
    (Option.map_eq_none_iff.mp h) row hRow
  simp [hId] at hAll

/- Chunks put together again are the list. -/
private theorem toChunksAux_flatten
    {α : Type}
    (n : Nat)
    (xs : List α)
    (i : Nat) :
    (List.toChunksAux n xs i).1 ++
        (List.toChunksAux n xs i).2.flatten = xs := by
  induction xs generalizing i with
  | nil => rfl
  | cons x xs ih =>
      cases i with
      | zero => simp [List.toChunksAux, ih n]
      | succ i => simp [List.toChunksAux, ih i]

/-
  Where a batch is full, the next element begins another.
-/
private theorem toChunksAux_zero
    {α : Type}
    (n : Nat)
    (xs : List α) :
    (List.toChunksAux n xs 0).1 = [] := by
  cases xs <;> rfl

/- The batches hold the ids in their order. -/
theorem inClauseBatches_flatten
    (ids : List String) :
    (inClauseBatches ids).flatten = ids := by
  have h :=
    toChunksAux_flatten (inClauseBatchSize - 1) ids 0
  rwa [toChunksAux_zero, List.nil_append] at h

/- What is read by ids are the rows with these ids. -/
theorem mem_getMemoriesByIds
    {ids : List String} {memory : Memory}
    (h : memory ∈ db.getMemoriesByIds ids) :
    memory.toMemoryRow ∈ db.memories ∧ memory.id ∈ ids := by
  rcases List.mem_flatMap.mp h with ⟨batch, hBatch, hMem⟩
  rcases List.mem_map.mp hMem with ⟨row, hRow, rfl⟩
  rw [List.mem_filter, decide_eq_true_iff] at hRow
  refine ⟨hRow.1, ?_⟩
  rw [← inClauseBatches_flatten ids]
  exact List.mem_flatten.mpr ⟨batch, hBatch, hRow.2⟩

/- Only the columns of accesses and validations differ. -/
def Touched (r r' : MemoryRow) : Prop :=
  r' = { r with
    lastAccessed := r'.lastAccessed
    accessCount := r'.accessCount
    lastValidated := r'.lastValidated }

/- A row that is not changed is touched. -/
theorem Touched.refl (r : MemoryRow) : Touched r r :=
  rfl

/- Two changes of this kind are one. -/
theorem Touched.trans
    {r₁ r₂ r₃ : MemoryRow}
    (h₁ : Touched r₁ r₂)
    (h₂ : Touched r₂ r₃) :
    Touched r₁ r₃ := by
  unfold Touched at *
  rw [h₂, h₁]

/- The rows of two databases, but for these columns. -/
def TouchedRows (db db' : Sqlite) : Prop :=
  ∃ g : MemoryRow → MemoryRow, (∀ r, Touched r (g r)) ∧
    db' = { db with memories := db.memories.map g }

/-
  A batch of such changes touches the rows and nothing else.
-/
theorem touchedRows_updateBatches
    (db : Sqlite)
    {f : MemoryRow → MemoryRow}
    (hf : ∀ r, Touched r (f r))
    (ids : List String) :
    TouchedRows db (db.updateBatches f ids) := by
  have hBatches :
      ∀ (batches : List (List String)) (rows : List MemoryRow),
        ∃ g : MemoryRow → MemoryRow, (∀ r, Touched r (g r)) ∧
          batches.foldl
              (fun rows batch =>
                Table.update (fun r => r.id ∈ batch) f rows)
              rows = rows.map g := by
    intro batches
    induction batches with
    | nil =>
        exact fun rows => ⟨id, Touched.refl, by simp⟩
    | cons batch batches ih =>
        intro rows
        rcases ih (Table.update (fun r => r.id ∈ batch) f rows)
          with ⟨g, hg, hRows⟩
        refine ⟨fun r => g (if r.id ∈ batch then f r else r),
          fun r => ?_, ?_⟩
        · refine Touched.trans ?_ (hg _)
          split
          · exact hf r
          · exact Touched.refl r
        · rw [List.foldl_cons, hRows, Table.update,
            List.map_map]
          rfl
  rcases hBatches (inClauseBatches ids) db.memories with
    ⟨g, hg, hRows⟩
  exact ⟨g, hg, by rw [updateBatches, hRows]⟩

/- Nothing has happened to the rows. -/
theorem TouchedRows.refl (db : Sqlite) : TouchedRows db db :=
  ⟨id, Touched.refl, by simp⟩

/- Counting accesses is such a batch. -/
theorem touchedRows_updateLastAccessed
    (db : Sqlite)
    (ids : List String)
    (now : DateTime) :
    TouchedRows db (db.updateLastAccessed ids now) :=
  touchedRows_updateBatches db
    (f := accessRow now) (fun _ => rfl) ids

/- Confirmations touch the rows and nothing else. -/
theorem touchedRows_updateLastValidated
    (db : Sqlite)
    (ids : List String)
    (now : DateTime) :
    TouchedRows db (db.updateLastValidated ids now) :=
  touchedRows_updateBatches db
    (f := validateRow now) (fun _ => rfl) ids

/- The conflict lookup returns exactly the matching rows. -/
theorem mem_getMemoriesBySubjectPredicate_iff
    {subject predicate : String} {row : MemoryRow} :
    (∃ m ∈ db.getMemoriesBySubjectPredicate
        subject predicate, m.toMemoryRow = row) ↔
      row ∈ db.memories ∧
        MatchesFact subject predicate row := by
  simp only [getMemoriesBySubjectPredicate,
    List.mem_map, List.mem_filter, decide_eq_true_eq]
  constructor
  · rintro ⟨m, ⟨r, hr, rfl⟩, rfl⟩
    exact hr
  · intro h
    exact ⟨_, ⟨row, h, rfl⟩, rfl⟩

/-
  The order of the listing does not matter for what is in
  it.
-/
theorem mem_listPendingOps_iff
    {op : PendingOp} :
    op ∈ db.listPendingOps ↔ op ∈ db.pendingOps := by
  simp [listPendingOps]

/- A refused journal insertion aside, the op is appended. -/
theorem insertPendingOp_eq_ok
    {op : PendingOp}
    (h : db.insertPendingOp op = .ok db') :
    ¬ Table.HasKey PendingOp.opId op.opId db.pendingOps ∧
      db' = { db with
        pendingOps := db.pendingOps ++ [op] } := by
  unfold insertPendingOp at h
  cases hInsert :
      Table.insert PendingOp.opId op db.pendingOps with
  | none => simp [hInsert] at h
  | some rows =>
      rcases Table.insert_eq_some hInsert with
        ⟨hFresh, rfl⟩
      simp only [hInsert, Except.ok.injEq] at h
      exact ⟨hFresh, h.symm⟩

/- An entity that is inserted joins the registry. -/
theorem insertEntity_eq_ok
    {entity : Entity}
    (h : db.insertEntity entity = .ok db') :
    ∃ aliases,
      db' = { db with
        entities :=
          db.entities ++ [{ entity with aliases := [] }]
        entityAliases := aliases } := by
  unfold insertEntity at h
  split at h
  · cases h
  · cases hInsert :
        Table.insert Entity.id { entity with aliases := [] }
          db.entities with
    | none => simp [hInsert] at h
    | some rows =>
        rcases Table.insert_eq_some hInsert with ⟨_, rfl⟩
        simp only [hInsert, Except.ok.injEq] at h
        exact ⟨_, h.symm⟩

/- An entity is refused when its name or id is in use. -/
theorem insertEntity_eq_error
    {entity : Entity} {e : StoreError}
    (h : db.insertEntity entity = .error e) :
    Table.HasKey Entity.name entity.name db.entities ∨
      Table.HasKey Entity.id entity.id db.entities := by
  by_contra hFresh
  rw [not_or] at hFresh
  have hInsert :=
    Table.insert_of_fresh
      { entity with aliases := [] } hFresh.2
  rw [insertEntity, if_neg hFresh.1, hInsert] at h
  cases h

/- What a statement on the registry does to two databases. -/
def SameOnRegistry
    (db db' : Sqlite)
    (result result' : Except StoreError Sqlite) : Prop :=
  (∃ e, result = .error e ∧ result' = .error e) ∨
    ∃ entities aliases,
      result = .ok { db with
        entities := entities
        entityAliases := aliases } ∧
      result' = .ok { db' with
        entities := entities
        entityAliases := aliases }

section Registry

variable
  (hEntities : db'.entities = db.entities)
  (hAliases : db'.entityAliases = db.entityAliases)

include hEntities hAliases

/- The registry alone decides a lookup by name. -/
theorem getEntityByName_congr
    (name : String) :
    db'.getEntityByName name = db.getEntityByName name := by
  simp only [getEntityByName, aliasesOf, hEntities, hAliases]

/- The registry alone decides the listing of entities. -/
theorem getAllEntities_congr :
    db'.getAllEntities = db.getAllEntities := by
  simp only [getAllEntities, aliasesOf, hEntities, hAliases]

/- The registry alone decides an insertion of an entity. -/
theorem insertEntity_congr
    (entity : Entity) :
    SameOnRegistry db db' (db.insertEntity entity)
      (db'.insertEntity entity) := by
  unfold insertEntity
  rw [hEntities, hAliases]
  split
  · exact Or.inl ⟨_, rfl, rfl⟩
  · cases hInsert :
        Table.insert Entity.id { entity with aliases := [] }
          db.entities with
    | none => exact Or.inl ⟨_, rfl, rfl⟩
    | some rows => exact Or.inr ⟨_, _, rfl, rfl⟩

/- The registry alone decides an alias. -/
theorem addEntityAlias_congr
    (entityId name : String)
    (now : DateTime) :
    SameOnRegistry db db'
      (db.addEntityAlias entityId name now)
      (db'.addEntityAlias entityId name now) := by
  unfold addEntityAlias
  rw [hEntities, hAliases]
  split
  · exact Or.inr ⟨_, _, rfl, rfl⟩
  · exact Or.inl ⟨_, rfl, rfl⟩

end Registry

/- No entity has a name that the lookup does not find. -/
theorem getEntityByName_eq_none
    {name : String}
    (h : db.getEntityByName name = none) :
    ¬ Table.HasKey Entity.name name db.entities := by
  rintro ⟨e, he, hName⟩
  simp only [getEntityByName, Option.map_eq_none_iff,
    Option.or_eq_none_iff] at h
  have hAll := List.find?_eq_none.mp h.1 e he
  simp [hName] at hAll

/- What is found has a row. -/
theorem hasKey_of_getEntityByName
    {name : String} {entity : Entity}
    (h : db.getEntityByName name = some entity) :
    Table.HasKey Entity.id entity.id db.entities := by
  rcases Option.map_eq_some_iff.mp h with ⟨e, he, rfl⟩
  rcases Option.or_eq_some_iff.mp he with hName | ⟨_, hAlias⟩
  · exact ⟨e, List.mem_of_find?_eq_some hName, rfl⟩
  · exact ⟨e, List.mem_of_find?_eq_some hAlias, rfl⟩

/- An entity that is listed has a row. -/
theorem hasKey_of_mem_getAllEntities
    {entity : Entity}
    (h : entity ∈ db.getAllEntities) :
    Table.HasKey Entity.id entity.id db.entities := by
  rcases List.mem_map.mp h with ⟨e, he, rfl⟩
  exact ⟨e, he, rfl⟩

/-
  An alias is refused only to an entity that is not there.
-/
theorem addEntityAlias_eq_error
    {entityId name : String} {now : DateTime}
    {e : StoreError}
    (h : db.addEntityAlias entityId name now = .error e) :
    ¬ Table.HasKey Entity.id entityId db.entities := by
  intro hKey
  rw [addEntityAlias, if_pos hKey] at h
  cases h

/- An alias touches the registry and keeps its ids. -/
theorem addEntityAlias_eq_ok
    {entityId name : String} {now : DateTime}
    (h : db.addEntityAlias entityId name now = .ok db') :
    ∃ aliases,
      db' = { db with
        entities :=
          Table.update (fun e => e.id = entityId)
            (fun e => { e with updatedAt := now })
            db.entities
        entityAliases := aliases } := by
  unfold addEntityAlias at h
  split at h
  · exact ⟨_, (Except.ok.inj h).symm⟩
  · cases h

/- Linking entities touches the link table only. -/
theorem linkMemoryEntityIn_eq_ok
    {memoryId entityId : String}
    (h : db.linkMemoryEntityIn memoryId entityId =
      .ok db') :
    ∃ links,
      db' = { db with memoryEntities := links } := by
  unfold linkMemoryEntityIn at h
  split at h
  · exact ⟨_, (Except.ok.inj h).symm⟩
  · split at h
    · exact ⟨_, (Except.ok.inj h).symm⟩
    · cases h

/- Links change the links alone. -/
private theorem foldlM_linkMemoryEntityIn_eq_ok
    {memoryId : String} {entityIds : List String}
    (h : entityIds.foldlM
      (fun db entityId =>
        linkMemoryEntityIn db memoryId entityId) db =
      .ok db') :
    ∃ links,
      db' = { db with memoryEntities := links } := by
  induction entityIds generalizing db with
  | nil => exact ⟨_, (Except.ok.inj h).symm⟩
  | cons entityId entityIds ih =>
      rw [List.foldlM_cons] at h
      cases hLink :
          db.linkMemoryEntityIn memoryId entityId with
      | error e => simp [hLink, bind, Except.bind] at h
      | ok db₁ =>
          simp only [hLink, bind, Except.bind] at h
          rcases linkMemoryEntityIn_eq_ok hLink with
            ⟨links₁, rfl⟩
          rcases ih h with ⟨links, rfl⟩
          exact ⟨links, rfl⟩

/- Entities that exist can be linked to a row that does. -/
private theorem foldlM_linkMemoryEntityIn_of_hasKey
    (db : Sqlite)
    {memoryId : String} {entityIds : List String}
    (hMemory : Table.HasKey MemoryRow.id memoryId db.memories)
    (hEntities :
      ∀ e ∈ entityIds,
        Table.HasKey Entity.id e db.entities) :
    ∃ db', entityIds.foldlM
      (fun db entityId =>
        linkMemoryEntityIn db memoryId entityId) db =
      .ok db' := by
  induction entityIds generalizing db with
  | nil => exact ⟨db, rfl⟩
  | cons e entityIds ih =>
      obtain ⟨db₁, hLink⟩ :
          ∃ db₁, db.linkMemoryEntityIn memoryId e =
            .ok db₁ := by
        have hBoth := And.intro hMemory (hEntities e (by simp))
        unfold linkMemoryEntityIn
        rw [if_pos hBoth]
        split
        · exact ⟨_, rfl⟩
        · exact ⟨_, rfl⟩
      rcases linkMemoryEntityIn_eq_ok hLink with
        ⟨links, rfl⟩
      rw [List.foldlM_cons, hLink]
      exact ih _ hMemory
        (fun x hx => hEntities x (by simp [hx]))

/- Invalidating ids one after another is one update. -/
theorem foldl_invalidateMemoryIn
    (ids : List String)
    (t : DateTime) :
    ids.foldl
        (fun db id => invalidateMemoryIn db id t) db =
      { db with
        memories :=
          Table.update (fun r => r.id ∈ ids)
            (invalidateRow t) db.memories } := by
  induction ids generalizing db with
  | nil => simp [Table.update]
  | cons id ids ih =>
      rw [List.foldl_cons, ih]
      simp only [invalidateMemoryIn, Table.update,
        List.map_map]
      congr 1
      apply List.map_congr_left
      intro r _
      by_cases hHead : r.id = id <;>
        by_cases hTail : r.id ∈ ids <;>
          simp_all [invalidateRow]

/-
  Everything a committed memory write changes: the row is
  new, the named rows are invalidated with it in place, and
  its op moves from the journal to the completed ops.
-/
theorem commitMemoryWrite_eq_ok
    {memory : Memory} {entityIds ids : List String}
    {t : DateTime} {completed : CompletedOp}
    (h : db.commitMemoryWrite memory entityIds ids t
      completed = .ok db') :
    ¬ Table.HasKey MemoryRow.id memory.id db.memories ∧
      ∃ links,
        db' = { db with
          memories :=
            Table.update (fun r => r.id ∈ ids)
              (invalidateRow t)
              (db.memories ++ [memory.toMemoryRow])
          memoryEntities := links
          completedOps :=
            Table.upsert CompletedOp.opId completed
              db.completedOps
          pendingOps :=
            Table.delete
              (fun p => p.opId = completed.opId)
              db.pendingOps } := by
  unfold commitMemoryWrite insertMemoryIn at h
  cases hInsert :
      Table.insert MemoryRow.id memory.toMemoryRow
        db.memories with
  | none =>
      simp [hInsert, bind, Except.bind] at h
  | some rows =>
      rcases Table.insert_eq_some hInsert with
        ⟨hFresh, rfl⟩
      simp only [hInsert, bind, Except.bind] at h
      split at h
      · cases h
      · rename_i db₁ hLinks
        rcases foldlM_linkMemoryEntityIn_eq_ok hLinks with
          ⟨links, rfl⟩
        rw [foldl_invalidateMemoryIn] at h
        refine ⟨hFresh, links, ?_⟩
        simpa [completeOpIn, pure, Except.pure]
          using h.symm

/- A new row with entities that exist can be committed. -/
theorem commitMemoryWrite_of_fresh
    {memory : Memory} {entityIds ids : List String}
    {t : DateTime} {completed : CompletedOp}
    (hFresh :
      ¬ Table.HasKey MemoryRow.id memory.id db.memories)
    (hEntities :
      ∀ e ∈ entityIds,
        Table.HasKey Entity.id e db.entities) :
    ∃ db', db.commitMemoryWrite memory entityIds ids t
      completed = .ok db' := by
  have hInsert :=
    Table.insert_of_fresh memory.toMemoryRow hFresh
  rcases foldlM_linkMemoryEntityIn_of_hasKey
      { db with
        memories := db.memories ++ [memory.toMemoryRow] }
      ⟨memory.toMemoryRow, by simp, rfl⟩ hEntities with
    ⟨db₁, hLinks⟩
  exact ⟨_, by
    simp only [commitMemoryWrite, insertMemoryIn, hInsert,
      bind, Except.bind, hLinks, pure, Except.pure]
    rfl⟩

end Sqlite

end Store

end Ferrex
