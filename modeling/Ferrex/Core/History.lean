import Ferrex.Lib.Timeline
import Ferrex.Core.Recall
import Ferrex.Core.Supersede

/-
  The history of the memories: the rows that supersession
  links follow one another in time, and a recall as of some
  time finds one version of each chain of them, as long as a
  commit invalidates no memory that is newer than its call.

  Main declarations:
    * `System.Superseding`
    * `Coherent`
    * `CommitsInOrder`
    * `AsOfHistory`, `history_coherent`
-/

------------------------------------------------------------
-- One Target
------------------------------------------------------------

namespace Ferrex

namespace Core

open Store

variable {Vec F : Type}
variable {env : Env Vec F} {service : MemoryService F}
variable {s t : System Vec F} {e : Event F}

/-
  A call with a target looks no rows up, and has nothing
  else to invalidate.
-/
def StoreStage.OneAim : StoreStage Vec F → Prop
| .embed ctx => ctx.supersededIds = []
| .dedup ctx =>
    ctx.req.supersedes = none ∧ ctx.supersededIds = []
| .conflict ctx =>
    ctx.req.supersedes = none ∧ ctx.supersededIds = []
| st =>
    ∀ ctx, st.context = some ctx →
      ctx.req.supersedes ≠ none → ctx.supersededIds = []

namespace StoreStage

/- What a context is to have in the later stages. -/
private def One (ctx : StoreContext Vec F) : Prop :=
  ctx.req.supersedes ≠ none → ctx.supersededIds = []

private theorem oneAim_of_context
    {st : StoreStage Vec F} {ctx : StoreContext Vec F}
    (hContext : st.context = some ctx)
    (hOne : One ctx) :
    ∀ ctx', st.context = some ctx' →
      ctx'.req.supersedes ≠ none → ctx'.supersededIds = [] :=
  fun _ h => Option.some.inj (hContext.symm.trans h) ▸ hOne

private theorem oneAim_done
    (result : Except (CoreError F) StoreResponse) :
    (StoreStage.done result : StoreStage Vec F).OneAim := by
  intro ctx h
  cases h

private theorem oneAim_afterEntities
    {ctx : StoreContext Vec F}
    (hOne : One ctx) :
    (afterEntities ctx).OneAim := by
  unfold afterEntities
  split
  · exact oneAim_of_context rfl hOne
  · exact oneAim_of_context rfl hOne

private theorem oneAim_nextName
    {ctx : StoreContext Vec F}
    (r : Resolving Vec)
    (entity : Store.Entity)
    (hOne : One ctx) :
    (nextName ctx r entity).OneAim := by
  unfold nextName
  dsimp only
  split
  · exact oneAim_afterEntities hOne
  · exact oneAim_of_context rfl hOne

variable [LE F] [LT F] [DecidableLE F] [DecidableLT F]

private theorem step_oneAim
    (w : World Vec)
    {st : StoreStage Vec F}
    (hAim : st.OneAim) :
    (st.step env service w).2.OneAim := by
  cases st with
  | ensure req =>
      simp only [step]
      split
      · exact oneAim_done _
      · split
        · exact oneAim_done _
        · rename_i ctx hValid
          rcases validated_eq_ok hValid with ⟨p, rfl⟩
          exact rfl
  | embed ctx =>
      have hNone : (Embed.run env ctx).supersededIds = [] :=
        hAim
      simp only [step]
      split
      · exact oneAim_of_context rfl (fun _ => hNone)
      · rename_i hTarget
        exact ⟨by simpa using hTarget, hNone⟩
  | dedup ctx =>
      simp only [step]
      split
      · exact oneAim_done _
      · exact hAim
  | conflict ctx =>
      simp only [step]
      split
      · exact oneAim_done _
      · rename_i ctx' hRun
        rcases Conflict.run_eq_ok hRun with ⟨ids, rfl⟩
        exact oneAim_of_context rfl
          (fun hTarget => absurd hAim.1 hTarget)
  | entities ctx =>
      have hOne : One ctx := hAim ctx rfl
      simp only [step]
      split
      · exact oneAim_afterEntities hOne
      · split
        · exact oneAim_done _
        · exact oneAim_of_context rfl hOne
  | resolve ctx r =>
      have hOne : One ctx := hAim ctx rfl
      exact resolveStep_rule w ctx r
        (fun e => oneAim_done _)
        (fun r' => oneAim_of_context rfl hOne)
        (fun entity => oneAim_nextName r entity hOne)
  | target ctx targetId =>
      simp only [step]
      split
      · exact oneAim_done _
      · exact oneAim_of_context rfl (hAim ctx rfl)
  | insertOp ctx =>
      simp only [step]
      split
      · exact oneAim_done _
      · split
        · exact oneAim_done _
        · exact oneAim_of_context rfl (hAim ctx rfl)
  | upsert ctx embedding opId startedAt =>
      simp only [step]
      split
      · exact oneAim_done _
      · exact oneAim_of_context rfl (hAim ctx rfl)
  | mark ctx opId startedAt =>
      exact oneAim_of_context rfl (hAim ctx rfl)
  | commit ctx opId startedAt =>
      simp only [step]
      split <;> exact oneAim_done _
  | done result => exact oneAim_done _

end StoreStage

section Aims

variable [LE F] [LT F] [DecidableLE F] [DecidableLT F]

/- A forget call has nothing to invalidate. -/
def Task.OneAim : Task Vec F → Prop
| .store _ stage => stage.OneAim
| .forget _ _ => True

theorem taskInvariant_oneAim
    (env : Env Vec F)
    (service : MemoryService F) :
    TaskInvariant env service (fun _ task => task.OneAim)
    where
  store _ req := by
    intro ctx h
    cases h
  forget _ _ := True.intro
  step w task hAim := by
    cases task with
    | store req st => exact StoreStage.step_oneAim w hAim
    | forget ids st => exact True.intro
  fail _ task e hAim := by
    cases task with
    | store req st =>
        intro ctx h
        cases h
    | forget ids st => exact True.intro
  mono _ _ _ _ hAim := hAim

end Aims

------------------------------------------------------------
-- Coherent Histories
------------------------------------------------------------

/-
  The second memory superseded the first: in a link from
  before the run, or by a call that has answered so.
-/
def System.Superseding
    (links : String → String → Prop)
    (s : System Vec F)
    (old new : String) : Prop :=
  links old new ∨
    ∃ i req resp, s.Answered i req resp ∧
      old ∈ resp.superseded ∧ resp.id = new

/-
  Rows that a link connects follow one another, and each row
  that is not valid has a successor.
-/
structure Coherent
    (links : String → String → Prop)
    (s : System Vec F) : Prop where
  known :
    ∀ old new, s.Superseding links old new →
      s.Known old ∧ s.Known new
  instant :
    ∀ r ∈ s.world.db.memories, r.tValid = none
  proper :
    ∀ r ∈ s.world.db.memories,
      Timeline.Proper MemoryRow.createdAt MemoryRow.tInvalid r
  follows :
    ∀ r ∈ s.world.db.memories, ∀ r' ∈ s.world.db.memories,
      s.Superseding links r.id r'.id →
        Timeline.Follows MemoryRow.createdAt
          MemoryRow.tInvalid r r'
  successor :
    ∀ r ∈ s.world.db.memories, r.tInvalid.isSome = true →
      ∃ r' ∈ s.world.db.memories,
        s.Superseding links r.id r'.id

/-
  What the history is to be: no row ends before it starts,
  each ends when the row that superseded it starts, and a
  recall as of a time admits one version of each chain.
-/
structure AsOfHistory
    (links : String → String → Prop)
    (s : System Vec F) : Prop where
  notBefore :
    ∀ r ∈ s.world.db.memories, ∀ time,
      r.tInvalid = some time → r.createdAt ≤ time
  superseder :
    ∀ r ∈ s.world.db.memories, ∀ time,
      r.tInvalid = some time →
        (∃ r' ∈ s.world.db.memories,
          s.Superseding links r.id r'.id) ∧
        ∀ r' ∈ s.world.db.memories,
          s.Superseding links r.id r'.id →
            r'.createdAt = time
  oneVersion :
    ∀ r rs asOf,
      (∀ v ∈ r :: rs, v ∈ s.world.db.memories) →
      (r :: rs).IsChain
        (fun v w => s.Superseding links v.id w.id) →
      (∀ w ∈ s.world.db.memories,
        ¬ s.Superseding links
          ((r :: rs).getLast (by simp)).id w.id) →
      r.createdAt ≤ asOf →
        ((r :: rs).filter
          (Recall.admits (some asOf) false)).length = 1

/- The filter of a recall is the liveness of a version. -/
theorem Recall.admits_iff_live
    {r : MemoryRow} {asOf : DateTime}
    (hInstant : r.tValid = none) :
    Recall.admits (some asOf) false r = true ↔
      Timeline.Live MemoryRow.createdAt MemoryRow.tInvalid
        asOf r := by
  simp only [Recall.admits, hInstant, Option.getD_none,
    Timeline.Live]
  by_cases hStart : asOf < r.createdAt
  · simp [hStart, not_le.mpr hStart]
  · simp only [hStart, if_false, Bool.false_eq_true,
      not_lt.mp hStart, true_and]
    cases r.tInvalid <;> simp

theorem Coherent.asOfHistory
    {links : String → String → Prop}
    (hCoherent : Coherent links s) :
    AsOfHistory links s where
  notBefore r hr time hTime := hCoherent.proper r hr time hTime
  superseder := by
    intro r hr time hTime
    refine ⟨hCoherent.successor r hr (by simp [hTime]), ?_⟩
    intro r' hr' hLink
    have hFollows := hCoherent.follows r hr r' hr' hLink
    exact (Option.some.inj (hTime.symm.trans hFollows)).symm
  oneVersion := by
    intro r rs asOf hRows hChain hLast hAsOf
    have hEnd :
        MemoryRow.tInvalid
          ((r :: rs).getLast (by simp)) = none := by
      by_contra hSome
      rcases hCoherent.successor _
          (hRows _ (List.getLast_mem (by simp)))
          (Option.isSome_iff_ne_none.mpr hSome) with
        ⟨w, hw, hLink⟩
      exact hLast w hw hLink
    refine Timeline.length_filter_live
      (fun v hv => Recall.admits_iff_live
        (hCoherent.instant v (hRows v hv)))
      (fun v hv => hCoherent.proper v (hRows v hv))
      ?_ hEnd hAsOf
    exact List.IsChain.imp_of_mem_imp
      (fun v w hv hw hLink =>
        hCoherent.follows v (hRows v hv) w (hRows w hw) hLink)
      hChain

------------------------------------------------------------
-- Steps
------------------------------------------------------------

/- No call asks to forget anything. -/
def Event.WithoutForget : Event F → Prop
| .forget _ _ => False
| _ => True

/-
  Each memory that a commit is to invalidate was created no
  later than the call began, and it is still valid, or was
  invalidated as of the very same time.
-/
def CommitsInOrder (s : System Vec F) : Event F → Prop
| .step i =>
    ∀ req ctx opId startedAt,
      s.live i =
          some (.store req (.commit ctx opId startedAt)) →
        ∀ r ∈ s.world.db.memories,
          r.id ∈ Write.invalidateIds ctx →
            r.createdAt ≤ ctx.now ∧
              (r.tInvalid = none ∨
                r.tInvalid = some ctx.now)
| _ => True

/- The state of the histories in a run. -/
structure Historic
    (env : Env Vec F)
    (links : String → String → Prop)
    (s : System Vec F) : Prop where
  ordered : Ordered env s
  aimed : s.Aimed
  oneAim :
    ∀ i call, s.calls i = some call → call.task.OneAim
  stores :
    ∀ i call ids stage, s.calls i = some call →
      call.task ≠ .forget ids stage
  coherent : Coherent links s

variable {links : String → String → Prop}

/- With one aim, what is invalidated is reported. -/
theorem Write.superseded_eq
    {ctx : StoreContext Vec F}
    (hAim :
      ctx.req.supersedes ≠ none → ctx.supersededIds = []) :
    Write.superseded ctx = Write.invalidateIds ctx := by
  unfold Write.superseded Write.invalidateIds
  cases hTarget : ctx.req.supersedes with
  | none => simp
  | some id => simp [hAim (by simp [hTarget])]

/- Without forget calls no row goes. -/
theorem Ordered.mem_rows
    (hOrdered : Ordered env s)
    (hStores :
      ∀ i call ids stage, s.calls i = some call →
        call.task ≠ .forget ids stage)
    {k : String × String}
    (hk : k ∈ s.committed) :
    ∃ r ∈ s.world.db.memories, (r.namespace, r.id) = k := by
  rcases hOrdered.inv.kept k hk with hRow | hNamed
  · exact hRow
  · rcases hNamed with ⟨i, call, hCall, hId⟩
    cases hTask : call.task with
    | store req stage => simp [hTask, Task.named] at hId
    | forget ids stage =>
        exact absurd hTask (hStores i call ids stage hCall)

/- The rows of a commit, from the rows before it. -/
private theorem mem_rows_cases
    {ctx : StoreContext Vec F} {rows : List MemoryRow}
    {r : MemoryRow}
    (hFresh : ctx.id ∉ Write.invalidateIds ctx)
    (h : r ∈ Write.rows env ctx rows) :
    (r = Write.row env ctx) ∨
      (∃ r₀ ∈ rows, r₀.id ∈ Write.invalidateIds ctx ∧
        r = Sqlite.invalidateRow ctx.now r₀) ∨
      (r ∈ rows ∧ r.id ∉ Write.invalidateIds ctx) := by
  rcases Write.mem_rows h with
    ⟨hIn, _, r₀, hr₀, rfl⟩ | ⟨hOut, hr⟩
  · rcases List.mem_append.mp hr₀ with hMem | hNew
    · exact Or.inr (Or.inl ⟨r₀, hMem, hIn, rfl⟩)
    · rw [List.mem_singleton.mp hNew] at hIn
      exact absurd hIn hFresh
  · rcases List.mem_append.mp hr with hMem | hNew
    · exact Or.inr (Or.inr ⟨hMem, hOut⟩)
    · exact Or.inl (List.mem_singleton.mp hNew)

/- Each old row has a version among the new ones. -/
private theorem exists_mem_rows
    (env : Env Vec F)
    (ctx : StoreContext Vec F)
    {rows : List MemoryRow} {r : MemoryRow}
    (hr : r ∈ rows ++ [Write.row env ctx]) :
    ∃ r' ∈ Write.rows env ctx rows,
      r'.id = r.id ∧ r'.createdAt = r.createdAt := by
  refine ⟨_, Table.mem_update_iff.mpr ⟨r, hr, rfl⟩, ?_⟩
  split <;> exact ⟨rfl, rfl⟩

section Steps

variable [LE F] [LT F] [DecidableLE F] [DecidableLT F]

theorem System.Superseding.next
    {old new : String}
    (h : s.Superseding links old new)
    (hNext : s.next env service e = some t) :
    t.Superseding links old new := by
  rcases h with hLink | ⟨i, req, resp, hAnswered, hBoth⟩
  · exact Or.inl hLink
  · exact Or.inr
      ⟨i, req, resp, hAnswered.next hNext, hBoth⟩

/- A new link is one from what a commit invalidates. -/
theorem System.superseding_next
    {old new : String}
    (hNext : s.next env service e = some t)
    (h : t.Superseding links old new) :
    s.Superseding links old new ∨
      ∃ i req ctx opId startedAt,
        s.live i =
            some (.store req (.commit ctx opId startedAt)) ∧
          old ∈ Write.invalidateIds ctx ∧ new = ctx.id ∧
            t.world.db.memories =
              Write.rows env ctx s.world.db.memories := by
  rcases h with hLink | ⟨i, req, resp, hAnswered, hOld, hNew⟩
  · exact Or.inl (Or.inl hLink)
  · rcases System.answered_next hNext hAnswered with
      hBefore | ⟨ctx, opId, startedAt, _, hLive, rfl, hRows,
        _⟩
    · exact Or.inl
        (Or.inr ⟨i, req, resp, hBefore, hOld, hNew⟩)
    · exact Or.inr ⟨i, req, ctx, opId, startedAt, hLive,
        Write.superseded_subset ctx hOld, hNew.symm, hRows⟩

/- Nothing changes as long as the rows stay the same. -/
private theorem Coherent.keep
    (hCoherent : Coherent links s)
    (hOrdered : Ordered env s)
    (hNext : s.next env service e = some t)
    (hSame :
      ∀ r, r ∈ t.world.db.memories ↔
        r ∈ s.world.db.memories) :
    Coherent links t := by
  have hLinks :
      ∀ old new, t.Superseding links old new →
        s.Superseding links old new := by
    intro old new h
    rcases System.superseding_next hNext h with
      hOld | ⟨i, req, ctx, opId, startedAt, hLive, _, _,
        hRows⟩
    · exact hOld
    · -- a commit would have added a row
      have hRow :
          ∃ r ∈ t.world.db.memories, r.id = ctx.id := by
        rw [hRows]
        exact ⟨_, Table.mem_update_iff.mpr
          ⟨Write.row env ctx, by simp, rfl⟩, by
            split <;> rfl⟩
      rcases hRow with ⟨r, hr, hId⟩
      exact absurd
        ⟨_, hOrdered.sound.world.rows r ((hSame r).mp hr),
          hId⟩
        (hOrdered.not_known hLive)
  constructor
  case known =>
    intro old new h
    have hOld := hCoherent.known old new (hLinks old new h)
    exact ⟨hOld.1.next hNext, hOld.2.next hNext⟩
  case instant =>
    exact fun r hr => hCoherent.instant r ((hSame r).mp hr)
  case proper =>
    exact fun r hr => hCoherent.proper r ((hSame r).mp hr)
  case follows =>
    intro r hr r' hr' h
    exact hCoherent.follows r ((hSame r).mp hr) r'
      ((hSame r').mp hr') (hLinks r.id r'.id h)
  case successor =>
    intro r hr hSome
    rcases hCoherent.successor r ((hSame r).mp hr) hSome with
      ⟨r', hr', hLink⟩
    exact ⟨r', (hSame r').mpr hr', hLink.next hNext⟩

/- A commit in order continues the histories. -/
private theorem Coherent.commit
    {i : Nat} {req : StoreRequest}
    {ctx : StoreContext Vec F} {opId : String}
    {startedAt : DateTime}
    (hHistoric : Historic env links s)
    (hNext : s.next env service e = some t)
    (hLive :
      s.live i = some (.store req (.commit ctx opId startedAt)))
    (hRows :
      t.world.db.memories =
        Write.rows env ctx s.world.db.memories)
    (hAnswered : t.Answered i req (Write.response env ctx))
    (hOnly :
      ∀ old new, t.Superseding links old new →
        s.Superseding links old new ∨
          (old ∈ Write.invalidateIds ctx ∧ new = ctx.id))
    (hInOrder :
      ∀ r ∈ s.world.db.memories,
        r.id ∈ Write.invalidateIds ctx →
          r.createdAt ≤ ctx.now ∧
            (r.tInvalid = none ∨
              r.tInvalid = some ctx.now)) :
    Coherent links t := by
  have hOld := hHistoric.coherent
  have hOrdered := hHistoric.ordered
  have hCall := (System.live_eq_some hLive).2
  have hUnknown := hOrdered.not_known hLive
  have hAimed :
      ∀ id ∈ Write.invalidateIds ctx, s.Known id :=
    hHistoric.aimed i _ _ _ hCall rfl
  have hFresh : ctx.id ∉ Write.invalidateIds ctx :=
    fun hId => hUnknown (hAimed ctx.id hId)
  have hReports :
      Write.superseded ctx = Write.invalidateIds ctx :=
    Write.superseded_eq (hHistoric.oneAim i _ hCall ctx rfl)
  have hKnownRow :
      ∀ r ∈ s.world.db.memories, s.Known r.id :=
    fun r hr => ⟨_, hOrdered.sound.world.rows r hr, rfl⟩
  have hNewKnown : t.Known ctx.id := by
    rcases exists_mem_rows env ctx
        (List.mem_append_right s.world.db.memories
          (List.mem_singleton_self (Write.row env ctx))) with
      ⟨r, hr, hId, _⟩
    exact ⟨_, (hOrdered.next hNext).sound.world.rows r
      (hRows ▸ hr), hId⟩
  constructor
  case known =>
    intro old new h
    rcases hOnly old new h with hBefore | ⟨hIn, rfl⟩
    · have hBoth := hOld.known old new hBefore
      exact ⟨hBoth.1.next hNext, hBoth.2.next hNext⟩
    · exact ⟨(hAimed old hIn).next hNext, hNewKnown⟩
  case instant =>
    intro r hr
    rw [hRows] at hr
    rcases mem_rows_cases hFresh hr with
      rfl | ⟨r₀, hr₀, _, rfl⟩ | ⟨hKept, _⟩
    · rfl
    · exact hOld.instant r₀ hr₀
    · exact hOld.instant r hKept
  case proper =>
    intro r hr
    rw [hRows] at hr
    rcases mem_rows_cases hFresh hr with
      rfl | ⟨r₀, hr₀, hIn, rfl⟩ | ⟨hKept, _⟩
    · intro time hTime
      cases hTime
    · intro time hTime
      cases hTime
      exact (hInOrder r₀ hr₀ hIn).1
    · exact hOld.proper r hKept
  case follows =>
    intro r hr r' hr' hLink
    rw [hRows] at hr hr'
    rcases hOnly r.id r'.id hLink with
      hBefore | ⟨hIn, hNew⟩
    · -- an old link, between old rows
      have hKnown := hOld.known r.id r'.id hBefore
      have hOldRow :
          ∀ v ∈ Write.rows env ctx s.world.db.memories,
            s.Known v.id →
              ∃ v₀ ∈ s.world.db.memories, v₀.id = v.id ∧
                v.createdAt = v₀.createdAt ∧
                  (v.tInvalid = v₀.tInvalid ∨
                    (v₀.id ∈ Write.invalidateIds ctx ∧
                      v.tInvalid = some ctx.now)) := by
        intro v hv hKnownId
        rcases mem_rows_cases hFresh hv with
          rfl | ⟨v₀, hv₀, hIn, rfl⟩ | ⟨hKept, _⟩
        · exact absurd hKnownId hUnknown
        · exact ⟨v₀, hv₀, rfl, rfl, Or.inr ⟨hIn, rfl⟩⟩
        · exact ⟨v, hKept, rfl, rfl, Or.inl rfl⟩
      rcases hOldRow r hr hKnown.1 with
        ⟨r₀, hr₀, hId, _, hStop⟩
      rcases hOldRow r' hr' hKnown.2 with
        ⟨r₀', hr₀', hId', hStart', _⟩
      rw [← hId, ← hId'] at hBefore
      have hFollows := hOld.follows r₀ hr₀ r₀' hr₀' hBefore
      unfold Timeline.Follows at hFollows ⊢
      rw [hStart']
      rcases hStop with hSame | ⟨hIn, hNow⟩
      · rw [hSame, hFollows]
      · rcases (hInOrder r₀ hr₀ hIn).2 with hNone | hSame
        · rw [hNone] at hFollows
          cases hFollows
        · rw [hNow, ← hSame, hFollows]
    · -- the new link, to the new row
      have hStop : r.tInvalid = some ctx.now := by
        rcases mem_rows_cases hFresh hr with
          rfl | ⟨r₀, _, _, rfl⟩ | ⟨_, hOut⟩
        · exact absurd hIn hFresh
        · rfl
        · exact absurd hIn hOut
      have hStart : r'.createdAt = ctx.now := by
        rcases mem_rows_cases hFresh hr' with
          rfl | ⟨r₀, hr₀, _, rfl⟩ | ⟨hKept, _⟩
        · rfl
        · exact absurd (hNew ▸ hKnownRow r₀ hr₀) hUnknown
        · exact absurd (hNew ▸ hKnownRow r' hKept) hUnknown
      rw [Timeline.Follows, hStop, hStart]
  case successor =>
    intro r hr hSome
    rw [hRows] at hr ⊢
    rcases mem_rows_cases hFresh hr with
      rfl | ⟨r₀, _, hIn, rfl⟩ | ⟨hKept, _⟩
    · cases hSome
    · -- the new row is its successor
      rcases exists_mem_rows env ctx
          (List.mem_append_right s.world.db.memories
            (List.mem_singleton_self (Write.row env ctx)))
        with
        ⟨r', hr', hId, _⟩
      exact ⟨r', hr', Or.inr ⟨i, req, _, hAnswered,
        by simpa [Write.response, hReports] using hIn,
        hId.symm⟩⟩
    · rcases hOld.successor r hKept hSome with
        ⟨r', hr', hLink⟩
      rcases exists_mem_rows env ctx
          (List.mem_append_left _ hr') with
        ⟨r'', hr'', hId, _⟩
      exact ⟨r'', hr'', hId ▸ hLink.next hNext⟩

theorem Historic.next
    (hHistoric : Historic env links s)
    (hNext : s.next env service e = some t)
    (hStores : e.WithoutForget)
    (hInOrder : CommitsInOrder s e) :
    Historic env links t := by
  have hOrdered := hHistoric.ordered
  have hLater := hOrdered.next hNext
  have hTasks :
      ∀ i call ids stage, t.calls i = some call →
        call.task ≠ .forget ids stage := by
    intro i call ids stage hCall hTask
    rcases System.calls_next hNext hCall with
      ⟨old, hOld, hSame⟩ | ⟨req, _, hStart⟩ |
        ⟨ids', rfl, _⟩ | ⟨task, _, hLive, hStep⟩ |
          ⟨task, err, _, hLive, hFail⟩
    · exact hHistoric.stores i old ids stage hOld
        (hSame ▸ hTask)
    · cases hTask.symm.trans hStart
    · exact hStores
    · cases task with
      | store req st => cases hTask.symm.trans hStep
      | forget ids' st =>
          exact hHistoric.stores i _ ids' st
            (System.live_eq_some hLive).2 rfl
    · cases task with
      | store req st => cases hTask.symm.trans hFail
      | forget ids' st =>
          exact hHistoric.stores i _ ids' st
            (System.live_eq_some hLive).2 rfl
  refine ⟨hLater, hHistoric.aimed.next hOrdered hNext,
    System.tasks_next (taskInvariant_oneAim env service)
      hNext hHistoric.oneAim, hTasks, ?_⟩
  cases System.rowChange hNext with
  | keep hRows =>
      exact hHistoric.coherent.keep hOrdered hNext
        (fun r => by rw [hRows])
  | delete p hRows =>
      refine hHistoric.coherent.keep hOrdered hNext
        (fun r => ⟨fun hr => ?_, fun hr => ?_⟩)
      · rw [hRows] at hr
        exact List.mem_of_mem_filter hr
      · -- its memory is still a row
        have hKnown : (r.namespace, r.id) ∈ t.committed := by
          have hMem := hOrdered.sound.world.rows r hr
          cases System.next_eq_some hNext with
          | step i task _ => exact List.mem_append_left _ hMem
          | _ => exact hMem
        rcases hLater.mem_rows hTasks hKnown with
          ⟨r', hr', hKey⟩
        have hOld : r' ∈ s.world.db.memories := by
          rw [hRows] at hr'
          exact List.mem_of_mem_filter hr'
        rw [← hOrdered.sound.world.rows_unique.eq_of_key_eq
          hOld hr (congrArg Prod.snd hKey)]
        exact hr'
  | @commit i req ctx opId startedAt hLive _ hRows _ hAnswer =>
      have hAnswered :
          t.Answered i req (Write.response env ctx) :=
        ⟨_, (System.live_eq_some hAnswer).2, rfl⟩
      refine Coherent.commit hHistoric hNext hLive hRows
        hAnswered ?_ (hInOrder _ _ _ _ hLive)
      intro old new h
      rcases h with hLink | ⟨j, req', resp, hOther, hIn, hId⟩
      · exact Or.inl (Or.inl hLink)
      · rcases System.answered_next hNext hOther with
          hBefore | ⟨ctx', opId', startedAt', hEvent, hLive',
            rfl, _, _⟩
        · exact Or.inl
            (Or.inr ⟨j, req', resp, hBefore, hIn, hId⟩)
        · cases hEvent
          cases hLive.symm.trans hLive'
          exact Or.inr
            ⟨Write.superseded_subset ctx hIn, hId.symm⟩

/-
  As-of history is coherent in every run of store calls in
  which no commit invalidates a memory newer than its call.
-/
theorem history_coherent
    {s₀ : System Vec F} {es : List (Event F)}
    (hIdle : Idle env s₀)
    (hStart : Coherent links s₀)
    (hRun :
      ((machine env service).restrict
        (fun s e =>
          e.WithoutForget ∧ CommitsInOrder s e)).Run
        s₀ es s) :
    AsOfHistory links s := by
  have hHistoric : Historic env links s := by
    refine hRun.restrict_invariant
      (fun _ _ _ h hNext hGuard =>
        h.next hNext hGuard.1 hGuard.2)
      ⟨hIdle.ordered, ?_, ?_, ?_, hStart⟩
    · intro i call _ _ hCall
      simp [hIdle.calls i] at hCall
    · intro i call hCall
      simp [hIdle.calls i] at hCall
    · intro i call _ _ hCall
      simp [hIdle.calls i] at hCall
  exact hHistoric.coherent.asOfHistory

end Steps

/- An empty store has no history. -/
theorem coherent_empty :
    Coherent (fun _ _ => False)
      (System.empty : System Vec F) where
  known := by
    rintro old new (h | ⟨i, req, resp, ⟨call, hCall, _⟩, _⟩)
    · exact h.elim
    · cases hCall
  instant := by simp [System.empty]
  proper := by simp [System.empty]
  follows := by simp [System.empty]
  successor := by simp [System.empty]

/- The condition as a check of a state. -/
private def commitsInOrder
    (s : System String Rat) : Event Rat → Bool
| .forget _ _ => false
| .step i =>
    match s.live i with
    | some (.store _ (.commit ctx _ _)) =>
        s.world.db.memories.all (fun r =>
          decide (r.id ∉ Write.invalidateIds ctx) ||
            (decide (r.createdAt ≤ ctx.now) &&
              r.tInvalid.isNone))
    | _ => true
| _ => true

private theorem commitsInOrder_of_check
    (s : System String Rat)
    (e : Event Rat)
    (h : commitsInOrder s e = true) :
    e.WithoutForget ∧ CommitsInOrder s e := by
  cases e with
  | forget i ids => cases h
  | step i =>
      refine ⟨True.intro, ?_⟩
      intro req ctx opId startedAt hLive r hr hId
      simp only [commitsInOrder, hLive] at h
      have hRow := List.all_eq_true.mp h r hr
      simp only [hId, not_true_eq_false, decide_false,
        Bool.false_or, Bool.and_eq_true, decide_eq_true_eq,
        Option.isNone_iff_eq_none] at hRow
      exact ⟨hRow.1, Or.inl hRow.2⟩
  | _ => exact ⟨True.intro, True.intro⟩

/- A fact, and the one that replaced it three ticks later. -/
theorem history_coherent_second_store :
    ∃ s : System String Rat,
      AsOfHistory (fun _ _ => False) s ∧
        ∃ r ∈ s.world.db.memories, r.tInvalid = some 3 := by
  rcases System.restrict_of_any Env.plain
    MemoryService.plain System.empty
    (.store 0 (.fact "cat" "is" "asleep") ::
      (List.replicate 9 (.step 0) ++
        .tick 3 :: .store 1 (.fact "cat" "is" "purring") ::
          List.replicate 9 (.step 1)))
    (fun s => s.world.db.memories.any
      (fun r => decide (r.tInvalid = some 3)))
    commitsInOrder_of_check
    (by decide +kernel) with ⟨s, hRun, hTest⟩
  rcases List.any_eq_true.mp hTest with ⟨r, hr, hTime⟩
  exact ⟨s,
    history_coherent (start_empty _).toIdle coherent_empty
      hRun,
    r, hr, of_decide_eq_true hTime⟩

/-
  A call that began first looks up a fact that is newer than
  it is, and invalidates it as of a time before its start.
-/
theorem history_inverted :
    ¬ ∀ (s₀ s : System String Rat) (es : List (Event Rat))
        (links : String → String → Prop),
        Start Env.plain s₀ →
        Coherent links s₀ →
        (∀ e ∈ es, e.OfCalls ∧ e.WithoutForget) →
        (machine Env.plain MemoryService.plain).Run
          s₀ es s →
          AsOfHistory links s := by
  intro hClaim
  rcases System.run_of_any Env.plain
    MemoryService.plain System.empty
    (.store 0 (.fact "cat" "is" "purring") :: .step 0 ::
      .tick 5 :: .store 1 (.fact "cat" "is" "asleep") ::
        (List.replicate 9 (.step 1) ++
          List.replicate 8 (.step 0)))
    (fun s => s.world.db.memories.any
      (fun r => decide (r.createdAt = 5 ∧
        r.tInvalid = some 0)))
    (by decide +kernel) with ⟨s, hRun, hTest⟩
  rcases List.any_eq_true.mp hTest with ⟨r, hr, hTimes⟩
  have hBoth := of_decide_eq_true hTimes
  have hHistory :=
    hClaim _ _ _ _ (start_empty _) coherent_empty
      (by simp [Event.OfCalls, Event.WithoutForget]) hRun
  have hLe := hHistory.notBefore r hr 0 hBoth.2
  rw [hBoth.1] at hLe
  cases hLe

end Core

end Ferrex
