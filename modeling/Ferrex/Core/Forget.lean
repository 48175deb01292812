import Ferrex.Core.Store

/-
  A forget call, one stage for each call it makes on a
  store, and the recovery that works off the journal when
  the process starts.

  Main declarations:
    * `ForgetStage`, `ForgetStage.start`, `ForgetStage.step`
    * `RecoveryStage`, `RecoveryStage.step`
-/

------------------------------------------------------------
-- Forget
------------------------------------------------------------

namespace Ferrex

namespace Core

open Store

/- Which ids are deleted, and which were not there. -/
structure ForgetResponse where
  message : String
  deleted : List String
  notFound : List String

/- The ids still to look up, each with its UUID's text. -/
structure ForgetProgress where
  rest : List (String × String)
  deleted : List String
  notFound : List String

/- The memory that is being forgotten. -/
structure ForgetTarget where
  id : String
  uuid : String
  «namespace» : String

namespace ForgetTarget

/- The operation that a forget writes before it deletes. -/
def pendingOp
    (target : ForgetTarget)
    (opId : String)
    (startedAt : DateTime) : PendingOp where
  opId := opId
  kind := .forget
  memoryId := target.id
  «namespace» := target.namespace
  targetId := none
  qdrantWritten := false
  startedAt := startedAt

end ForgetTarget

/-
  Where a forget stands, with the ids that are still to
  come.
-/
inductive ForgetStage (F : Type) where
| lookup (p : ForgetProgress)
| insertOp (p : ForgetProgress) (target : ForgetTarget)
| delete
    (p : ForgetProgress)
    (target : ForgetTarget)
    (opId : String)
    (startedAt : DateTime)
| mark
    (p : ForgetProgress)
    (target : ForgetTarget)
    (opId : String)
    (startedAt : DateTime)
| deleteRow
    (p : ForgetProgress)
    (target : ForgetTarget)
    (opId : String)
    (startedAt : DateTime)
| complete
    (p : ForgetProgress)
    (target : ForgetTarget)
    (opId : String)
    (startedAt : DateTime)
| done (result : Except (CoreError F) ForgetResponse)

variable {Vec F : Type}

/- Every id has to parse, or nothing is forgotten. -/
def parseUuids
    (env : Env Vec F) :
    List String →
      Except (CoreError F) (List (String × String))
| [] => .ok []
| id :: ids =>
    match env.parseUuid id with
    | none => .error (.validation s!"invalid UUID: {id}")
    | some uuid =>
        match parseUuids env ids with
        | .error e => .error e
        | .ok rest => .ok ((id, uuid) :: rest)

namespace ForgetProgress

/- The answer once all ids are through. -/
def response (p : ForgetProgress) : ForgetResponse where
  message := s!"deleted {p.deleted.length} memories"
  deleted := p.deleted
  notFound := p.notFound

end ForgetProgress

namespace ForgetStage

/- A forget begins only if every id is a UUID. -/
def start
    (env : Env Vec F)
    (ids : List String) : ForgetStage F :=
  match parseUuids env ids with
  | .error e => .done (.error e)
  | .ok rest => .lookup ⟨rest, [], []⟩

/- One access to one of the two stores. -/
def step
    (env : Env Vec F)
    (w : World Vec) :
    ForgetStage F → World Vec × ForgetStage F
| .lookup p =>
    match p.rest with
    | [] => (w, .done (.ok p.response))
    | (id, uuid) :: rest =>
        match w.db.getMemory id with
        | none =>
            (w, .lookup
              { p with
                rest := rest
                notFound := p.notFound ++ [id] })
        | some memory =>
            (w, .insertOp { p with rest := rest }
              ⟨id, uuid, memory.namespace⟩)
| .insertOp p target =>
    let opId := env.uuid w.nextUuid
    let w := { w with nextUuid := w.nextUuid + 1 }
    match w.db.insertPendingOp
        (target.pendingOp opId w.clock) with
    | .error e => (w, .done (.error (.store e)))
    | .ok db =>
        ({ w with db := db }, .delete p target opId w.clock)
| .delete p target opId startedAt =>
    match w.qdrant.deleteByIds target.namespace
        [target.uuid] with
    | .error e => (w, .done (.error (.store e)))
    | .ok qdrant =>
        ({ w with qdrant := qdrant },
          .mark p target opId startedAt)
| .mark p target opId startedAt =>
    ({ w with db := w.db.markPendingOpQdrantWritten opId },
      .deleteRow p target opId startedAt)
| .deleteRow p target opId startedAt =>
    ({ w with db := w.db.deleteMemories [target.id] },
      .complete p target opId startedAt)
| .complete p target opId startedAt =>
    ({ w with
        db := w.db.completeOp
          ((target.pendingOp opId startedAt).intoCompleted
            target.id target.namespace w.clock) },
      .lookup { p with deleted := p.deleted ++ [target.id] })
| .done result => (w, .done result)

/- The stages whose step calls a store. -/
def calls : ForgetStage F → Bool
| .lookup p => !p.rest.isEmpty
| .done _ => false
| _ => true

/- The first error ends the forget. -/
def fail (e : CoreError F) : ForgetStage F :=
  .done (.error e)

end ForgetStage

------------------------------------------------------------
-- Recovery
------------------------------------------------------------

/- What a recovery has done. -/
structure RecoveryReport where
  compensatedStores : Nat
  rolledForwardForgets : Nat
  clearedPreQdrant : Nat

/- Nothing has been done yet. -/
def RecoveryReport.empty : RecoveryReport := ⟨0, 0, 0⟩

/-
  The next call of `recover_on_startup`.  `ops` are the
  listed ops not yet looked at; a stage that writes comes
  with the op it is about and, where it clears the op, with
  the report that holds once it has.
-/
inductive RecoveryStage where
| list
| check (report : RecoveryReport) (ops : List PendingOp)
| deletePoint
    (report : RecoveryReport)
    (op : PendingOp)
    (uuid : String)
    (ops : List PendingOp)
| deleteRow
    (report : RecoveryReport)
    (op : PendingOp)
    (ops : List PendingOp)
| clear
    (report : RecoveryReport)
    (op : PendingOp)
    (ops : List PendingOp)
| done (report : RecoveryReport)

namespace RecoveryStage

/- How an op that is not completed is dealt with. -/
def compensate
    (env : Env Vec F)
    (report : RecoveryReport)
    (op : PendingOp)
    (ops : List PendingOp) : RecoveryStage :=
  match op.kind, op.qdrantWritten with
  | _, false =>
      .clear
        { report with
          clearedPreQdrant := report.clearedPreQdrant + 1 }
        op ops
  | .forget, true =>
      .deleteRow
        { report with
          rolledForwardForgets :=
            report.rolledForwardForgets + 1 }
        op ops
  | _, true =>
      match env.parseUuid op.memoryId with
      | none => .clear report op ops
      | some uuid =>
          .deletePoint
            { report with
              compensatedStores :=
                report.compensatedStores + 1 }
            op uuid ops

/- One call of the recovery, when the store answers it. -/
def step
    (env : Env Vec F)
    (w : World Vec) :
    RecoveryStage →
      Except StoreError (World Vec × RecoveryStage)
| .list =>
    .ok (w, .check RecoveryReport.empty w.db.listPendingOps)
| .check report [] => .ok (w, .done report)
| .check report (op :: ops) =>
    if w.db.isOpCompleted op.opId then
      .ok (w, .clear report op ops)
    else
      .ok (w, compensate env report op ops)
| .deletePoint report op uuid ops =>
    match w.qdrant.deleteByIds op.namespace [uuid] with
    | .error e => .error e
    | .ok qdrant =>
        .ok ({ w with qdrant := qdrant },
          .deleteRow report op ops)
| .deleteRow report op ops =>
    .ok ({ w with db := w.db.deleteMemories [op.memoryId] },
      .clear report op ops)
| .clear report op ops =>
    .ok ({ w with db := w.db.clearPendingOp op.opId },
      .check report ops)
| .done report => .ok (w, .done report)

end RecoveryStage

end Core

end Ferrex
