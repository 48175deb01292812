import Mathlib.Data.Rat.Defs
import Ferrex.Lib.Table

/-
  The data of the two stores: the SQLite tables that the
  metadata store reads and writes, and the points of the
  Qdrant collections.

  Main declarations:
    * `MemoryType`, `MemoryRow`, `Memory`, `Entity`
    * `PendingOpKind`, `PendingOp`, `CompletedOp`
    * `PendingOp.intoCompleted`
    * `Sqlite`
    * `Payload`, `Point`, `Qdrant`
    * `StoreError`
-/

------------------------------------------------------------
-- Memories and Entities
------------------------------------------------------------

namespace Ferrex

namespace Store

/- UTC instants, in nanoseconds. -/
abbrev DateTime := Int

inductive MemoryType where
| episodic
| semantic
| procedural
deriving DecidableEq, Repr

namespace MemoryType

def asStr : MemoryType → String
| .episodic => "episodic"
| .semantic => "semantic"
| .procedural => "procedural"

end MemoryType

/-
  One row of the `memories` table.  A JSON context is kept
  as the text the column holds.
-/
structure MemoryRow where
  id : String
  «namespace» : String
  memoryType : MemoryType
  content : Option String
  subject : Option String
  predicate : Option String
  object : Option String
  confidence : Rat
  source : Option String
  context : Option String
  createdAt : DateTime
  updatedAt : DateTime
  tValid : Option DateTime
  tInvalid : Option DateTime
  lastAccessed : DateTime
  lastValidated : Option DateTime
  accessCount : Nat
  normalizedPredicate : Option String
deriving DecidableEq, Repr

/- A memory is its row with the names of its entities. -/
structure Memory extends MemoryRow where
  entities : List String
deriving DecidableEq, Repr

structure Entity where
  id : String
  name : String
  aliases : List String
  entityType : Option String
  createdAt : DateTime
  updatedAt : DateTime
deriving DecidableEq, Repr

------------------------------------------------------------
-- Journal
------------------------------------------------------------

inductive PendingOpKind where
| store
| forget
| supersede
deriving DecidableEq, Repr

structure PendingOp where
  opId : String
  kind : PendingOpKind
  memoryId : String
  «namespace» : String
  targetId : Option String
  qdrantWritten : Bool
  startedAt : DateTime
deriving DecidableEq, Repr

structure CompletedOp where
  opId : String
  kind : PendingOpKind
  memoryId : String
  «namespace» : String
  startedAt : DateTime
  completedAt : DateTime
  durationMs : Int
  outcome : String
deriving DecidableEq, Repr

/- The completion record of an op that ends at `now`. -/
def PendingOp.intoCompleted
    (op : PendingOp)
    (memoryId ns : String)
    (now : DateTime) : CompletedOp where
  opId := op.opId
  kind := op.kind
  memoryId := memoryId
  «namespace» := ns
  startedAt := op.startedAt
  completedAt := now
  durationMs :=
    Int.tdiv ((now : Int) - op.startedAt) 1000000
  outcome := "ok"

------------------------------------------------------------
-- Databases
------------------------------------------------------------

/-
  The tables the modelled statements touch.  `entities`
  holds no aliases of its own: they are the rows of
  `entityAliases`, as (entity id, alias).
-/
structure Sqlite where
  memories : List MemoryRow
  entities : List Entity
  entityAliases : List (String × String)
  memoryEntities : List (String × String)
  pendingOps : List PendingOp
  completedOps : List CompletedOp

/- What a point carries besides its vectors. -/
inductive Payload where
| memory
    (memoryId : String)
    (memoryType : MemoryType)
    («namespace» : String)
    (searchableText : String)
    (entities : List String)
    (createdAt : DateTime)
| entity
    (entityId name «namespace» : String)
deriving DecidableEq, Repr

/- A point: its id, dense vector, BM25 text and payload. -/
structure Point (Vec : Type) where
  id : String
  vector : Vec
  contentText : String
  payload : Payload

/- The Qdrant server: the points of each collection. -/
structure Qdrant (Vec : Type) where
  collections : String → List (Point Vec)

/- The errors of the two stores, with their messages. -/
inductive StoreError where
| sqlite (message : String)
| qdrant (message : String)
| pool (message : String)
| sidecar (message : String)
| notFound (message : String)
| serialization (message : String)
| taskJoin (message : String)
deriving DecidableEq, Repr

------------------------------------------------------------
-- Readings of a Payload
------------------------------------------------------------

namespace Payload

/- The payload of a memory point (`point_type = "memory"`). -/
def IsMemory : Payload → Prop
| .memory .. => True
| .entity .. => False

instance (p : Payload) : Decidable p.IsMemory := by
  cases p <;> unfold IsMemory <;> infer_instance

/- The payload of a memory point of one type. -/
def HasMemoryType (t : MemoryType) : Payload → Prop
| .memory _ t' .. => t' = t
| .entity .. => False

instance (t : MemoryType) (p : Payload) :
    Decidable (p.HasMemoryType t) := by
  cases p <;> unfold HasMemoryType <;> infer_instance

end Payload

end Store

end Ferrex
