import Mathlib.Algebra.Order.Ring.Rat
import Ferrex.Store.Metadata
import Ferrex.Core.Predicate

/-
  The stages of the store pipeline that compute: what they
  read from the two stores is an argument, what they write
  is in the machine of a call.

  Main declarations:
    * `StoreRequest`, `StoreContext`, `CoreError`
    * `Validate.run`, `NormalizePredicate.run`, `Embed.run`
    * `Dedup.run`
    * `Conflict.classify`, `Conflict.run`
    * `Write.buildMemory`, `Write.pendingOp`
-/

------------------------------------------------------------
-- Requests, Configuration and Errors
------------------------------------------------------------

namespace Ferrex

namespace Core

open Store

/-
  What a client asks to be stored; a triple makes a fact.
-/
structure StoreRequest where
  content : Option String
  memoryType : Option MemoryType
  subject : Option String
  predicate : Option String
  object : Option String
  confidence : Option Rat
  source : Option String
  context : Option String
  entities : List String
  «namespace» : Option String
  supersedes : Option String

/-
  What a store answers: the new id and what it supersedes.
-/
structure StoreResponse where
  id : String
  memoryType : String
  superseded : List String
deriving DecidableEq

/- The similarity from which a memory is a duplicate. -/
structure DedupConfig (F : Type) where
  threshold : F

/-
  From when on objects are the same, and one a new version.
-/
structure ConflictConfig (F : Type) where
  objectFuzzyDuplicate : F
  objectFuzzyUpdate : F

/- The configuration that the store path reads. -/
structure FerrexConfig (F : Type) where
  «namespace» : String
  deduplication : DedupConfig F
  conflict : ConflictConfig F

/-
  The configuration, and the normalizer of each namespace.
-/
structure MemoryService (F : Type) where
  config : FerrexConfig F
  normalizers : List (String × PredicateNormalizer)
  defaultNormalizer : PredicateNormalizer

/-
  The errors of the service, with what they say of memories.
-/
inductive CoreError (F : Type) where
| embed (message : String)
| store (e : StoreError)
| validation (message : String)
| duplicate (existingId : String) (similarity : F)
| conflictAmbiguous (existingId : String) (ratio : F)
| multiMatchConflict (existingIds : List String)

/- An error that a call on the model or a store returns. -/
def CoreError.external {F : Type} : CoreError F → Bool
| .embed _ => true
| .store _ => true
| _ => false

/- What the stages of a store hand on to each other. -/
structure StoreContext (Vec F : Type) where
  req : StoreRequest
  «namespace» : String
  memoryType : MemoryType
  now : DateTime
  id : String
  normalizedPredicate : Option String
  embedding : Option Vec
  searchText : Option String
  resolvedEntities : List Store.Entity
  supersededIds : List String
  normalizer : PredicateNormalizer
  dedupConfig : DedupConfig F
  conflictConfig : ConflictConfig F

variable {Vec F : Type}

namespace StoreContext

/- The context that a store begins with. -/
def new
    (req : StoreRequest)
    (ns : String)
    (memoryType : MemoryType)
    (normalizer : PredicateNormalizer)
    (dedupConfig : DedupConfig F)
    (conflictConfig : ConflictConfig F)
    (now : DateTime)
    (id : String) : StoreContext Vec F where
  req := req
  «namespace» := ns
  memoryType := memoryType
  now := now
  id := id
  normalizedPredicate := none
  embedding := none
  searchText := none
  resolvedEntities := []
  supersededIds := []
  normalizer := normalizer
  dedupConfig := dedupConfig
  conflictConfig := conflictConfig

end StoreContext

/- An explicit type, or semantic for a complete triple. -/
def detectMemoryType (req : StoreRequest) : MemoryType :=
  match req.memoryType with
  | some t => t
  | none =>
      if req.subject.isSome ∧ req.predicate.isSome ∧
          req.object.isSome then
        .semantic
      else
        .episodic

namespace MemoryService

/- A request without a namespace is for the default one. -/
def requestNamespace
    (service : MemoryService F)
    (req : StoreRequest) : String :=
  req.namespace.getD service.config.namespace

/-
  A namespace without groups of its own has the common ones.
-/
def normalizer
    (service : MemoryService F)
    (ns : String) : PredicateNormalizer :=
  (service.normalizers.lookup ns).getD
    service.defaultNormalizer

end MemoryService

------------------------------------------------------------
-- Validation
------------------------------------------------------------

namespace Validate

/- The limits of a request, in bytes and in entities. -/
def maxContentLength : Nat := 4096
def maxSubjectLength : Nat := 512
def maxPredicateLength : Nat := 256
def maxObjectLength : Nat := 4096
def maxEntitiesPerRequest : Nat := 50

/- A field over its limit, in bytes. -/
def checkLength
    (field : String)
    (limit : Nat)
    (value : Option String) : Except (CoreError F) Unit :=
  match value with
  | some s =>
      if limit < s.utf8ByteSize then
        .error (.validation
          s!"{field} exceeds {limit} byte limit")
      else
        .ok ()
  | none => .ok ()

/- A field that is there and is not blank. -/
def nonEmpty (value : Option String) : Bool :=
  match value with
  | some s => !s.isEmpty
  | none => false

/- Each type has fields that it cannot do without. -/
def checkFields
    (ctx : StoreContext Vec F) : Except (CoreError F) Unit :=
  match ctx.memoryType with
  | .semantic => do
      if !nonEmpty ctx.req.subject ||
          !nonEmpty ctx.req.predicate ||
          !nonEmpty ctx.req.object then
        throw (.validation
          "semantic memory requires non-empty subject, predicate, and object")
      checkLength "subject" maxSubjectLength ctx.req.subject
      checkLength "predicate" maxPredicateLength
        ctx.req.predicate
      checkLength "object" maxObjectLength ctx.req.object
  | _ => do
      if !nonEmpty ctx.req.content then
        throw (.validation
          s!"{ctx.memoryType.asStr} memory requires content")
      checkLength "content" maxContentLength ctx.req.content

/- The first check that fails gives the error. -/
def run
    (env : Env Vec F)
    (ctx : StoreContext Vec F) :
    Except (CoreError F) Unit := do
  if maxEntitiesPerRequest < ctx.req.entities.length then
    throw (.validation
      s!"too many entities: {ctx.req.entities.length} exceeds limit of {maxEntitiesPerRequest}")
  checkFields ctx
  match ctx.req.supersedes with
  | some s =>
      if (env.parseUuid s).isNone then
        throw (.validation s!"invalid supersedes UUID: {s}")
  | none => pure ()

/- Validation fails with a message and nothing else. -/

/- A text that is too long is the client's error. -/
private theorem checkLength_eq_error
    {field : String} {limit : Nat} {value : Option String}
    {e : CoreError F}
    (h : checkLength field limit value = .error e) :
    ∃ message, e = .validation message := by
  unfold checkLength at h
  grind

/- A field that is missing is the client's error. -/
private theorem checkFields_eq_error
    {ctx : StoreContext Vec F} {e : CoreError F}
    (h : checkFields ctx = .error e) :
    ∃ message, e = .validation message := by
  unfold checkFields at h
  simp only [bind, Except.bind, throw, throwThe,
    MonadExceptOf.throw] at h
  grind [checkLength_eq_error]

/- Validation fails with nothing but such errors. -/
theorem run_eq_error
    {env : Env Vec F} {ctx : StoreContext Vec F}
    {e : CoreError F}
    (h : run env ctx = .error e) :
    ∃ message, e = .validation message := by
  unfold run at h
  simp only [bind, Except.bind, throw, throwThe,
    MonadExceptOf.throw, pure, Except.pure] at h
  grind [checkFields_eq_error]

end Validate

------------------------------------------------------------
-- Predicate and Embedding
------------------------------------------------------------

namespace NormalizePredicate

/- A fact gets its predicate in normal form. -/
def run
    (env : Env Vec F)
    (ctx : StoreContext Vec F) :
    Except (CoreError F) (StoreContext Vec F) :=
  if ctx.memoryType ≠ .semantic then
    .ok ctx
  else
    match ctx.req.predicate with
    | none =>
        .error (.validation "semantic predicate missing")
    | some predicate =>
        .ok { ctx with
          normalizedPredicate :=
            some (ctx.normalizer.normalize env predicate) }

end NormalizePredicate

namespace Embed

/- The text that is embedded: the content, or the triple. -/
def buildSearchableText
    (ctx : StoreContext Vec F) : String :=
  match ctx.memoryType with
  | .semantic =>
      ctx.req.subject.getD "" ++ " " ++
        ctx.req.predicate.getD "" ++ " " ++
          ctx.req.object.getD ""
  | _ => ctx.req.content.getD ""

/- The embedding of that text. -/
def run
    (env : Env Vec F)
    (ctx : StoreContext Vec F) : StoreContext Vec F :=
  let searchText := buildSearchableText ctx
  { ctx with
    searchText := some searchText
    embedding := some (env.embed searchText) }

end Embed

------------------------------------------------------------
-- Deduplication
------------------------------------------------------------

namespace Dedup

/- How many of the nearest points are looked at. -/
def topK : Nat := 5

/- Memory points of the type of the request. -/
def filter
    (memoryType : MemoryType)
    (payload : Payload) : Bool :=
  decide (payload.IsMemory ∧
    payload.HasMemoryType memoryType)

/-
  Facts are left to the conflict check. Of the others one is
  a duplicate when the nearest point reaches the threshold.
-/
def run [LE F] [DecidableLE F]
    (env : Env Vec F)
    (ctx : StoreContext Vec F)
    (qdrant : Qdrant Vec) : Except (CoreError F) Unit :=
  if ctx.memoryType = .semantic then
    .ok ()
  else
    match ctx.embedding with
    | none =>
        .error (.validation
          "dedup stage requires embedding")
    | some embedding =>
        match qdrant.searchDense env.nearest ctx.namespace
            embedding topK (filter ctx.memoryType) with
        | .error e => .error (.store e)
        | .ok [] => .ok ()
        | .ok ((id, score) :: _) =>
            if ctx.dedupConfig.threshold ≤ score then
              .error (.duplicate id score)
            else
              .ok ()

end Dedup

------------------------------------------------------------
-- Conflicts
------------------------------------------------------------

namespace Conflict

/- What becomes of a fact, given the rows with its key. -/
inductive Classification (F : Type) where
| noConflict
| duplicate (existingId : String) (similarity : F)
| update (existingId : String)
| ambiguous (existingId : String) (ratio : F)
| multiMatch (existingIds : List String)

/- Objects are compared trimmed and in lowercase. -/
def normalizeObject
    (env : Env Vec F)
    (s : String) : String :=
  env.toLowercase (Text.trim s)

/-
  With one row the objects decide, with more it is an error.
-/
def classify [LE F] [LT F] [DecidableLE F] [DecidableLT F]
    (env : Env Vec F)
    (incomingObject : String)
    (existing : List Memory)
    (config : ConflictConfig F) : Classification F :=
  match existing with
  | [] => .noConflict
  | [candidate] =>
      let normIn := normalizeObject env incomingObject
      let normEx :=
        normalizeObject env (candidate.object.getD "")
      if normIn = normEx then
        .duplicate candidate.id (env.toF32 1)
      else
        let ratio :=
          env.toF32 (env.jaroWinkler normIn normEx)
        if config.objectFuzzyDuplicate ≤ ratio then
          .duplicate candidate.id ratio
        else if ratio < config.objectFuzzyUpdate then
          .update candidate.id
        else
          .ambiguous candidate.id ratio
  | _ => .multiMatch (existing.map (fun m => m.id))

/- The subject that the lookup asks for. -/
def lookupSubject
    (env : Env Vec F)
    (req : StoreRequest) : String :=
  Text.trim (env.toLowercase (req.subject.getD ""))

/- The rows in the way of a request, as of one state. -/
def existing
    (env : Env Vec F)
    (req : StoreRequest)
    (normalizedPredicate : String)
    (db : Sqlite) : List Memory :=
  db.getMemoriesBySubjectPredicate
    (lookupSubject env req) normalizedPredicate

/- A row to be superseded is put down in the context. -/
def run [LE F] [LT F] [DecidableLE F] [DecidableLT F]
    (env : Env Vec F)
    (ctx : StoreContext Vec F)
    (db : Sqlite) :
    Except (CoreError F) (StoreContext Vec F) :=
  if ctx.memoryType ≠ .semantic then
    .ok ctx
  else
    match ctx.normalizedPredicate with
    | none =>
        .error (.validation
          "conflict stage requires normalized predicate")
    | some normalizedPredicate =>
        match classify env (ctx.req.object.getD "")
            (existing env ctx.req normalizedPredicate db)
            ctx.conflictConfig with
        | .noConflict => .ok ctx
        | .duplicate id similarity =>
            .error (.duplicate id similarity)
        | .update id =>
            .ok { ctx with
              supersededIds := ctx.supersededIds ++ [id] }
        | .ambiguous id ratio =>
            .error (.conflictAmbiguous id ratio)
        | .multiMatch ids =>
            .error (.multiMatchConflict ids)

end Conflict

------------------------------------------------------------
-- Write
------------------------------------------------------------

namespace Write

/- The row of the new memory, and its entities. -/
def buildMemory
    (env : Env Vec F)
    (ctx : StoreContext Vec F) : Memory where
  id := ctx.id
  «namespace» := ctx.namespace
  memoryType := ctx.memoryType
  content := ctx.req.content
  subject :=
    ctx.req.subject.map
      (fun s => env.toLowercase (Text.trim s))
  predicate := ctx.req.predicate
  object := ctx.req.object
  confidence :=
    match ctx.req.confidence with
    | some c => max 0 (min c 1)
    | none => 1
  source := ctx.req.source
  context := ctx.req.context
  entities := ctx.resolvedEntities.map Store.Entity.name
  createdAt := ctx.now
  updatedAt := ctx.now
  tValid := none
  tInvalid := none
  lastAccessed := ctx.now
  lastValidated := none
  accessCount := 0
  normalizedPredicate := ctx.normalizedPredicate

/- A plain store, or the supersession of a target. -/
def opKind (req : StoreRequest) : PendingOpKind :=
  match req.supersedes with
  | none => .store
  | some _ => .supersede

/- What recovery has to know when the store is cut off. -/
def pendingOp
    (ctx : StoreContext Vec F)
    (opId : String)
    (startedAt : DateTime) : PendingOp where
  opId := opId
  kind := opKind ctx.req
  memoryId := ctx.id
  «namespace» := ctx.namespace
  targetId := ctx.req.supersedes
  qdrantWritten := false
  startedAt := startedAt

/- What Qdrant keeps beside the vector, to filter by. -/
def payload
    (env : Env Vec F)
    (ctx : StoreContext Vec F) : Payload :=
  let memory := buildMemory env ctx
  .memory memory.id memory.memoryType memory.namespace
    (ctx.searchText.getD "") memory.entities
      memory.createdAt

/- The memories that the commit invalidates. -/
def invalidateIds
    (ctx : StoreContext Vec F) : List String :=
  ctx.supersededIds ++ ctx.req.supersedes.toList

/- The memories that the response reports as superseded. -/
def superseded
    (ctx : StoreContext Vec F) : List String :=
  match ctx.req.supersedes with
  | some id => [id]
  | none => ctx.supersededIds

/- What a store answers once it is committed. -/
def response
    (env : Env Vec F)
    (ctx : StoreContext Vec F) : StoreResponse where
  id := (buildMemory env ctx).id
  memoryType := ctx.memoryType.asStr
  superseded := superseded ctx

end Write

end Core

end Ferrex
