import Ferrex.Core.Accesses
import Ferrex.Core.Supersede

/-
  What a validation shows in later recalls: the rows have it
  until one with an older time reaches the writer after it,
  and so have the results that are computed of them.  An
  answer from the cache has it if its rows were fetched after
  the validation.

  Main declarations:
    * `MemoryRow.ValidatedSince`
    * `Cached.Shows`, `Cached.Seen`
    * `Cached.ReadsSince`, `Cached.StampsSince`
    * `validation_visible`
    * `validation_hidden_by_cache`
-/

------------------------------------------------------------
-- Validated Rows
------------------------------------------------------------

namespace Ferrex

namespace Store

/- A row that says it was validated at a time or later. -/
def MemoryRow.ValidatedSince
    (v : DateTime)
    (r : MemoryRow) : Prop :=
  ∃ t, r.lastValidated = some t ∧ v ≤ t

namespace Sqlite

/- What an update of rows preserves holds of all of them. -/
theorem forall_updateBatches
    {db : Sqlite} {P : MemoryRow → Prop}
    {f : MemoryRow → MemoryRow} {ids : List String}
    (hf : ∀ r, r.id ∈ ids → P r → P (f r))
    (h : ∀ r ∈ db.memories, P r) :
    ∀ r ∈ (db.updateBatches f ids).memories, P r := by
  have hBatches :
      ∀ batch ∈ inClauseBatches ids, ∀ id ∈ batch,
        id ∈ ids := by
    intro batch hBatch id hId
    rw [← inClauseBatches_flatten ids]
    exact List.mem_flatten.mpr ⟨batch, hBatch, hId⟩
  unfold updateBatches
  dsimp only
  generalize inClauseBatches ids = batches at hBatches ⊢
  generalize db.memories = rows at h ⊢
  induction batches generalizing rows with
  | nil => exact h
  | cons batch batches ih =>
      rw [List.foldl_cons]
      refine ih ?_ _ ?_
      · intro batch' hBatch'
        exact hBatches batch' (List.mem_cons_of_mem _ hBatch')
      · intro r hr
        rcases List.mem_map.mp hr with ⟨r₀, hr₀, rfl⟩
        split
        · rename_i hIn
          refine hf r₀ ?_ (h r₀ hr₀)
          exact hBatches batch (List.mem_cons_self ..) _ hIn
        · exact h r₀ hr₀

/- A validation says so in the row that it names. -/
theorem lastValidated_updateLastValidated
    {db : Sqlite} {ids : List String} {id : String}
    {now : DateTime}
    (hId : id ∈ ids) :
    ∀ r ∈ (db.updateLastValidated ids now).memories,
      r.id = id → r.lastValidated = some now := by
  have hBatches :
      ∀ (batches : List (List String)) (rows : List MemoryRow),
        (id ∈ batches.flatten ∨
          ∀ r ∈ rows, r.id = id → r.lastValidated = some now) →
        ∀ r ∈ batches.foldl
            (fun rows batch =>
              Table.update (fun r => r.id ∈ batch)
                (validateRow now) rows) rows,
          r.id = id → r.lastValidated = some now := by
    intro batches
    induction batches with
    | nil =>
        intro rows h
        exact h.resolve_left (by simp)
    | cons batch batches ih =>
        intro rows h
        rw [List.foldl_cons]
        refine ih _ ?_
        by_cases hRest : id ∈ batches.flatten
        · exact .inl hRest
        · refine .inr (fun r hr hSame => ?_)
          rcases List.mem_map.mp hr with ⟨r₀, hr₀, rfl⟩
          by_cases hBatch : r₀.id ∈ batch
          · rw [if_pos hBatch]
            rfl
          · rw [if_neg hBatch] at hSame ⊢
            rcases h with hIn | hRows
            · rw [List.flatten_cons, List.mem_append] at hIn
              exact absurd (hSame ▸ hIn.resolve_right hRest)
                hBatch
            · exact hRows r₀ hr₀ hSame
  refine hBatches _ _ (.inl ?_)
  rw [inClauseBatches_flatten]
  exact hId

end Sqlite

end Store

------------------------------------------------------------
-- Results That Show a Validation
------------------------------------------------------------

namespace Core

open Store

variable {Vec F D : Type}
variable [DecidableEq Vec]
variable [LE F] [LT F] [DecidableLE F] [DecidableLT F]
variable [LT D] [DecidableLT D]

namespace Cached

variable {backend : Backend Vec F D}
variable {s t : Cached Vec F D}
variable {call : RecallCall Vec F D}
variable {id : String} {v : DateTime}

omit [DecidableEq Vec] [LE F] [LT F] [DecidableLE F]
  [DecidableLT F] in
/-
  A result that, if it is about a memory, says that it was
  validated at a time or later, with the score and the label
  that this gives it.
-/
def Shows
    (scoring : Scoring F D)
    (id : String)
    (v : DateTime)
    (r : RecallResult F D) : Prop :=
  r.memory.id = id →
    r.memory.ValidatedSince v ∧
      ∃ now, v ≤ now ∧
        r.stalenessScore =
          scoring.stalenessScore r.memory now ∧
        r.freshnessLabel =
          freshnessLabel scoring r.stalenessScore
            (scoring.threshold r.memory.memoryType)

omit [DecidableEq Vec] [LE F] [LT F] [DecidableLE F]
  [DecidableLT F] in
/- What a recall has read so far shows the validation. -/
def ReadsShow
    (scoring : Scoring F D)
    (id : String)
    (v : DateTime) : RecallStage Vec F D → Prop
| .rerank _ ordered =>
    ∀ m ∈ ordered, m.id = id → m.ValidatedSince v
| .flush _ results _ => ∀ r ∈ results, Shows scoring id v r
| .put _ results => ∀ r ∈ results, Shows scoring id v r
| _ => True

omit [DecidableEq Vec] [LE F] [LT F] [DecidableLE F]
  [DecidableLT F] in
/- What a recall returns shows it. -/
def AnswerShows
    (scoring : Scoring F D)
    (id : String)
    (v : DateTime) : RecallStage Vec F D → Prop
| .validate _ results => ∀ r ∈ results, Shows scoring id v r
| .stamp results _ _ => ∀ r ∈ results, Shows scoring id v r
| .done (.ok results) => ∀ r ∈ results, Shows scoring id v r
| _ => True

omit [LT F] [DecidableLT F] in
/- The reads go on from rows that show the validation. -/
theorem readsShow_advance
    (hClock : v ≤ s.sys.world.clock)
    (hRows :
      ∀ r ∈ s.sys.world.db.memories, r.id = id →
        r.ValidatedSince v)
    (hReads : ReadsShow backend.scoring id v call.stage) :
    ReadsShow backend.scoring id v
      (s.advance backend call).2.stage := by
  have hRank :
      ∀ (req : RecallRequest) (ordered : List Memory)
        (reranked : List (RerankResult F)),
        (∀ m ∈ ordered, m.id = id → m.ValidatedSince v) →
          ∀ r ∈ Recall.rank backend.scoring req
              s.sys.world.clock ordered reranked,
            Shows backend.scoring id v r := by
    intro req ordered reranked hOrdered r hr
    refine Recall.of_mem_rank
      (P := Shows backend.scoring id v) ?_ ?_ hr
    · intro m hm score hId
      exact ⟨hOrdered m hm hId, s.sys.world.clock, hClock,
        rfl, rfl⟩
    · exact fun r h _ => h
  cases hStage : call.stage with
  | rows q found =>
      simp only [advance, hStage]
      split
      · trivial
      · intro m hm hId
        exact hRows m.toMemoryRow
          (Sqlite.mem_getMemoriesByIds
            (Recall.mem_of_mem_order hm)).1 hId
  | rerank q ordered =>
      rw [hStage] at hReads
      simp only [advance, hStage]
      split
      · trivial
      · split
        · exact hRank q.req ordered _ hReads
        · exact hRank q.req ordered _ hReads
  | flush q results ids =>
      rw [hStage] at hReads
      simp only [advance, hStage]
      exact hReads
  | embed req =>
      simp only [advance, hStage]
      split <;> trivial
  | entry q currentGen =>
      simp only [advance, hStage]
      split <;> trivial
  | search q =>
      simp only [advance, hStage]
      split
      · trivial
      · split <;> trivial
  | validate req results =>
      simp only [advance, hStage]
      split <;> trivial
  | done result =>
      simp only [advance, hStage]
      trivial
  | _ =>
      simp only [advance, hStage]
      trivial

omit [LT F] [DecidableLT F] in
/- The answer is what was read, or comes from the cache. -/
theorem answerShows_advance
    (hHit :
      ∀ q currentGen answer,
        call.stage = .entry q currentGen →
          s.cache.getResults q.key currentGen = some answer →
            ∀ r ∈ answer.results,
              Shows backend.scoring id v r)
    (hReads : ReadsShow backend.scoring id v call.stage)
    (hAnswer : AnswerShows backend.scoring id v call.stage) :
    AnswerShows backend.scoring id v
      (s.advance backend call).2.stage := by
  cases hStage : call.stage with
  | entry q currentGen =>
      simp only [advance, hStage]
      split
      · exact hHit q currentGen _ hStage ‹_›
      · trivial
  | search q =>
      simp only [advance, hStage]
      split
      · trivial
      · split
        · intro r hr
          cases hr
        · trivial
  | rows q found =>
      simp only [advance, hStage]
      split
      · intro r hr
        cases hr
      · trivial
  | rerank q ordered =>
      simp only [advance, hStage]
      split
      · trivial
      · split <;> trivial
  | put q results =>
      rw [hStage] at hReads
      simp only [advance, hStage]
      exact hReads
  | validate req results =>
      rw [hStage] at hAnswer
      simp only [advance, hStage]
      split <;> exact hAnswer
  | stamp results ids now =>
      rw [hStage] at hAnswer
      simp only [advance, hStage]
      exact hAnswer
  | done result =>
      rw [hStage] at hAnswer
      simp only [advance, hStage]
      exact hAnswer
  | embed req =>
      simp only [advance, hStage]
      split <;> trivial
  | _ =>
      simp only [advance, hStage]
      trivial

------------------------------------------------------------
-- The Rows Keep a Validation
------------------------------------------------------------

omit [DecidableEq Vec] [LE F] [LT F] [DecidableLE F]
  [DecidableLT F] [LT D] [DecidableLT D] in
/-
  A memory that was a row, and was validated at a time that
  is over, says so as long as it is one.
-/
structure Validated
    (env : Env Vec F)
    (id : String)
    (v : DateTime)
    (s : Cached Vec F D) : Prop where
  ordered : Ordered env s.sys
  known : s.sys.Known id
  clock : v ≤ s.sys.world.clock
  rows :
    ∀ r ∈ s.sys.world.db.memories, r.id = id →
      r.ValidatedSince v

section Rows

omit [DecidableEq Vec] [LE F] [LT F] [DecidableLE F]
  [DecidableLT F] [LT D] [DecidableLT D]

variable {env : Env Vec F}

theorem Validated.same
    (hValidated : Validated env id v s)
    (hSys : t.sys = s.sys) :
    Validated env id v t := by
  rcases t with ⟨sys, _⟩
  subst hSys
  exact ⟨hValidated.ordered, hValidated.known,
    hValidated.clock, hValidated.rows⟩

/- Accesses do not touch it. -/
theorem Validated.accessed
    {ids : List String}
    (hValidated : Validated env id v s)
    (hSys :
      t.sys = (s.setDb (s.sys.world.db.updateLastAccessed ids
        s.sys.world.clock)).sys) :
    Validated env id v t := by
  refine Validated.same (s := s.setDb _) ?_ hSys
  refine ⟨hValidated.ordered.touched
    (Sqlite.touchedRows_updateLastAccessed _ _ _),
      hValidated.known, hValidated.clock, ?_⟩
  exact Sqlite.forall_updateBatches (fun _ _ h => h)
    hValidated.rows

/- Another validation has a time that is not before. -/
theorem Validated.validated
    {ids : List String} {now : DateTime}
    (hValidated : Validated env id v s)
    (hNow : id ∈ ids → v ≤ now)
    (hSys :
      t.sys = (s.setDb (s.sys.world.db.updateLastValidated ids
        now)).sys) :
    Validated env id v t := by
  refine Validated.same (s := s.setDb _) ?_ hSys
  refine ⟨hValidated.ordered.touched
    (Sqlite.touchedRows_updateLastValidated _ _ _),
      hValidated.known, hValidated.clock, ?_⟩
  refine Sqlite.forall_updateBatches ?_ hValidated.rows
  intro r hIn _ hId
  exact ⟨now, rfl, hNow (hId ▸ hIn)⟩

end Rows

omit [DecidableEq Vec] [LT D] [DecidableLT D] in
/- A call of the stores inserts other rows than this one. -/
theorem Validated.sysNext
    {env : Env Vec F} {service : MemoryService F}
    {e : Core.Event F}
    (hValidated : Validated env id v s)
    (hNext : s.sys.next env service e = some t.sys) :
    Validated env id v t := by
  refine ⟨hValidated.ordered.next hNext,
    hValidated.known.next hNext,
    hValidated.clock.trans (System.clock_le hNext), ?_⟩
  intro r hr hId
  cases System.rowChange hNext with
  | keep hRows => exact hValidated.rows r (hRows ▸ hr) hId
  | delete p hRows =>
      rw [hRows] at hr
      exact hValidated.rows r (List.mem_of_mem_filter hr) hId
  | @commit i req ctx opId startedAt hLive _ hRows _ _ =>
      have hUnknown := hValidated.ordered.not_known hLive
      have hOld :
          ∀ r₀ ∈ s.sys.world.db.memories ++
              [Write.row env ctx], r₀.id = id →
            r₀.ValidatedSince v := by
        intro r₀ hr₀ hId₀
        rcases List.mem_append.mp hr₀ with hMem | hNew
        · exact hValidated.rows r₀ hMem hId₀
        · rw [List.mem_singleton.mp hNew] at hId₀
          rw [← hId₀] at hValidated
          exact absurd hValidated.known hUnknown
      rw [hRows] at hr
      rcases Write.mem_rows hr with
        ⟨_, _, r₀, hr₀, rfl⟩ | ⟨_, hMem⟩
      · exact hOld r₀ hr₀ hId
      · exact hOld r hMem hId

omit [LT F] [DecidableLT F] in
theorem Validated.advance
    {env : Env Vec F}
    {s' : Cached Vec F D} {call' : RecallCall Vec F D}
    (hValidated : Validated env id v s)
    (hStamp :
      ∀ results ids now, call.stage = .stamp results ids now →
        id ∈ ids → v ≤ now)
    (hAdvance : Advance backend s call s' call') :
    Validated env id v s' := by
  cases hAdvance with
  | flush _ => exact hValidated.accessed rfl
  | stamp hStage =>
      exact hValidated.validated (hStamp _ _ _ hStage) rfl
  | _ => exact hValidated.same rfl

/- The validations of a step have a time not before one. -/
def StampsSince
    (id : String)
    (v : DateTime)
    (s : Cached Vec F D) : Event F → Prop
| .advance j =>
    ∀ call results ids now, s.recalls j = some call →
      call.stage = .stamp results ids now →
        id ∈ ids → v ≤ now
| _ => True

theorem Validated.next
    {e : Event F}
    (hValidated : Validated backend.env id v s)
    (hStamps : StampsSince id v s e)
    (hNext : s.next backend e = some t) :
    Validated backend.env id v t := by
  cases next_eq_some hNext with
  | sys e sys _ _ _ hSys => exact hValidated.sysNext hSys
  | step i task sys _ _ hSys => exact hValidated.sysNext hSys
  | advance j call hCall =>
      exact (hValidated.advance
        (fun results ids now => hStamps call results ids now
          hCall)
        (advance_eq backend s call)).same rfl
  | flushed ok =>
      cases ok with
      | true => exact hValidated.accessed rfl
      | false => exact hValidated.same rfl
  | _ => exact hValidated.same rfl

------------------------------------------------------------
-- Times of Fetched Rows
------------------------------------------------------------

omit [DecidableEq Vec] [LE F] [LT F] [DecidableLE F]
  [DecidableLT F] [LT D] [DecidableLT D] in
/- A validation that waits for the writer has a past time. -/
def Stamped (s : Cached Vec F D) : Prop :=
  ∀ j call results ids now, s.recalls j = some call →
    call.stage = .stamp results ids now →
      now ≤ s.sys.world.clock

omit [DecidableEq Vec] [LE F] [LT F] [DecidableLE F]
  [DecidableLT F] [LT D] [DecidableLT D] in
theorem Stamped.wait
    (hStamped : Stamped s)
    (hRecalls : t.recalls = s.recalls)
    (hClock : s.sys.world.clock ≤ t.sys.world.clock) :
    Stamped t := by
  intro j call results ids now hCall hStage
  rw [hRecalls] at hCall
  exact (hStamped j call results ids now hCall hStage).trans
    hClock

omit [DecidableEq Vec] [LE F] [LT F] [DecidableLE F]
  [DecidableLT F] [LT D] [DecidableLT D] in
theorem Stamped.setRecall
    {s' : Cached Vec F D} {i : Nat}
    {call' : RecallCall Vec F D}
    (hStamped : Stamped s)
    (hRecalls : s'.recalls = s.recalls)
    (hClock : s'.sys.world.clock = s.sys.world.clock)
    (hStage :
      ∀ results ids now, call'.stage = .stamp results ids now →
        now ≤ s.sys.world.clock) :
    Stamped (s'.setRecall i call') := by
  intro j call results ids now hCall hStamp
  change now ≤ s'.sys.world.clock
  rw [hClock]
  change Function.update s'.recalls i (some call') j = _
    at hCall
  rw [hRecalls, Function.update_apply] at hCall
  split at hCall
  · cases hCall
    exact hStage results ids now hStamp
  · exact hStamped j call results ids now hCall hStamp

omit [LT F] [DecidableLT F] in
/- The time of a validation is that of the step before. -/
private theorem Stamped.advance
    {i : Nat} {s' : Cached Vec F D}
    {call' : RecallCall Vec F D}
    (hStamped : Stamped s)
    (hAdvance : Advance backend s call s' call') :
    Stamped (s'.setRecall i call') := by
  have hSame := hAdvance.same
  refine hStamped.setRecall hSame.2.2.2.1 ?_ ?_
  · cases hAdvance <;> rfl
  · intro results ids now hStamp
    cases hAdvance with
    | validate _ =>
        cases hStamp
        exact le_refl _
    | rank _ hNext =>
        rcases hNext with rfl | ⟨_, rfl⟩ <;> cases hStamp
    | _ => cases hStamp

theorem Stamped.next
    {e : Event F}
    (hStamped : Stamped s)
    (hNext : s.next backend e = some t) :
    Stamped t := by
  cases next_eq_some hNext with
  | sys e sys _ _ _ hSys =>
      exact hStamped.wait rfl (System.clock_le hSys)
  | step i task sys _ _ hSys =>
      exact hStamped.wait rfl (System.clock_le hSys)
  | «recall» j req _ =>
      exact hStamped.setRecall rfl rfl
        (fun _ _ _ h => by cases h)
  | advance j call _ =>
      exact hStamped.advance (advance_eq backend s call)
  | failRecall j err call stage _ hFail =>
      refine hStamped.setRecall rfl rfl ?_
      intro results ids now hStamp
      cases hStage : call.stage <;> rw [hStage] at hFail <;>
        cases hFail <;> cases hStamp
  | flushed ok =>
      cases ok <;> exact hStamped.wait rfl (le_refl _)
  | _ => exact hStamped.wait rfl (le_refl _)

omit [DecidableEq Vec] [LE F] [LT F] [DecidableLE F]
  [DecidableLT F] [LT D] [DecidableLT D] in
/-
  Rows were fetched and validations were begun in the past,
  and the ids are in order.
-/
structure Timed
    (env : Env Vec F)
    (x : Cached Vec F D × Observed Vec) : Prop where
  ordered : Ordered env x.1.sys
  stamped : Stamped x.1
  fetched : ∀ j, x.2.fetchedAt j ≤ x.1.time
  cached : ∀ key, x.2.cachedAt key ≤ x.1.time

omit [LE F] [LT F] [DecidableLE F] [DecidableLT F]
  [LT D] [DecidableLT D] in
/- A step of a recall may fetch its rows. -/
theorem fetchedAt_advance
    (o : Observed Vec)
    (now i j : Nat)
    (stage next : RecallStage Vec F D) :
    (o.advance now j stage next).fetchedAt i =
        o.fetchedAt i ∨
      (o.advance now j stage next).fetchedAt i = now := by
  cases stage with
  | rows q found =>
      change Function.update o.fetchedAt j now i = _ ∨
        Function.update o.fetchedAt j now i = _
      rw [Function.update_apply]
      split
      · exact .inr rfl
      · exact .inl rfl
  | _ => exact .inl rfl

omit [LE F] [LT F] [DecidableLE F] [DecidableLT F]
  [LT D] [DecidableLT D] in
/- An answer that it keeps has the time of its rows. -/
theorem cachedAt_advance
    (o : Observed Vec)
    (now j : Nat)
    (key : ResultCacheKeyInput Vec)
    (stage next : RecallStage Vec F D) :
    (o.advance now j stage next).cachedAt key =
        o.cachedAt key ∨
      (o.advance now j stage next).cachedAt key =
        o.fetchedAt j := by
  cases stage with
  | put q results =>
      change Function.update o.cachedAt q.key _ key = _ ∨
        Function.update o.cachedAt q.key _ key = _
      rw [Function.update_apply]
      split
      · exact .inr rfl
      · exact .inl rfl
  | _ => exact .inl rfl

omit [LE F] [LT F] [DecidableLE F] [DecidableLT F]
  [LT D] [DecidableLT D] in
/- What the record of a step says of the times of rows. -/
theorem observed_times
    (s t : Cached Vec F D)
    (e : Event F)
    (o : Observed Vec) :
    (∀ j, (Observed.next s e t o).fetchedAt j =
        o.fetchedAt j ∨
      (Observed.next s e t o).fetchedAt j = s.time) ∧
    (∀ key, (Observed.next s e t o).cachedAt key =
        o.cachedAt key ∨
      ∃ j, (Observed.next s e t o).cachedAt key =
        o.fetchedAt j) := by
  cases e with
  | advance j =>
      simp only [Observed.next]
      split
      · exact ⟨fun i => fetchedAt_advance o s.time i j _ _,
          fun key => (cachedAt_advance o s.time j key _ _).imp
            id (fun h => ⟨j, h⟩)⟩
      · exact ⟨fun _ => .inl rfl, fun _ => .inl rfl⟩
  | _ => exact ⟨fun _ => .inl rfl, fun _ => .inl rfl⟩

theorem time_next
    {e : Event F}
    (hNext : s.next backend e = some t) :
    t.time = s.time + 1 := by
  cases next_eq_some hNext with
  | advance j call hCall =>
      exact congrArg (· + 1)
        (advance_eq backend s call).same.2.1
  | flushed ok => cases ok <;> rfl
  | _ => rfl

theorem ordered_next
    {e : Event F}
    (hOrdered : Ordered backend.env s.sys)
    (hNext : s.next backend e = some t) :
    Ordered backend.env t.sys := by
  cases next_eq_some hNext with
  | sys e sys _ _ _ hSys => exact hOrdered.next hSys
  | step i task sys _ _ hSys => exact hOrdered.next hSys
  | advance j call hCall =>
      have hAdvance := advance_eq backend s call
      change Ordered backend.env (s.advance backend call).1.sys
      generalize (s.advance backend call).1 = s' at hAdvance
      generalize (s.advance backend call).2 = call' at hAdvance
      cases hAdvance with
      | flush _ =>
          exact hOrdered.touched
            (Sqlite.touchedRows_updateLastAccessed _ _ _)
      | stamp _ =>
          exact hOrdered.touched
            (Sqlite.touchedRows_updateLastValidated _ _ _)
      | _ => exact hOrdered
  | flushed ok =>
      cases ok with
      | true =>
          exact hOrdered.touched
            (Sqlite.touchedRows_updateLastAccessed _ _ _)
      | false => exact hOrdered
  | _ => exact hOrdered

theorem Timed.next
    {x y : Cached Vec F D × Observed Vec} {e : Event F}
    (hTimed : Timed backend.env x)
    (hStep : (observed backend).step x e y) :
    Timed backend.env y := by
  rcases hStep with ⟨hNext, hRecord⟩
  have hTime : y.1.time = x.1.time + 1 := time_next hNext
  have hTimes := observed_times x.1 y.1 e x.2
  rw [← hRecord] at hTimes
  refine ⟨ordered_next hTimed.ordered hNext,
    hTimed.stamped.next hNext, ?_, ?_⟩
  · intro j
    rw [hTime]
    rcases hTimes.1 j with hSame | hNow
    · rw [hSame]
      exact Nat.le_succ_of_le (hTimed.fetched j)
    · rw [hNow]
      exact Nat.le_succ _
  · intro key
    rw [hTime]
    rcases hTimes.2 key with hSame | ⟨j, hFetched⟩
    · rw [hSame]
      exact Nat.le_succ_of_le (hTimed.cached key)
    · rw [hFetched]
      exact Nat.le_succ_of_le (hTimed.fetched j)

------------------------------------------------------------
-- After the Validation
------------------------------------------------------------

omit [LE F] [LT F] [DecidableLE F] [DecidableLT F]
  [LT D] [DecidableLT D] in
/-
  No recall that begins after a state is answered from the
  cache with a memory whose row was fetched before it.
-/
def ReadsSince
    (since : Cached Vec F D)
    (id : String)
    (x : Cached Vec F D × Observed Vec) : Event F → Prop
| .advance j =>
    since.recalls j = none →
      ∀ call q currentGen answer, x.1.recalls j = some call →
        call.stage = .entry q currentGen →
          x.1.cache.getResults q.key currentGen =
              some answer →
            (∃ r ∈ answer.results, r.memory.id = id) →
              since.time ≤ x.2.cachedAt q.key
| _ => True

omit [LE F] [LT F] [DecidableLE F] [DecidableLT F] in
/-
  What was fetched since a state shows the validation, and
  what recalls return that have begun since then.
-/
structure Seen
    (backend : Backend Vec F D)
    (since : Cached Vec F D)
    (id : String)
    (v : DateTime)
    (x : Cached Vec F D × Observed Vec) : Prop where
  validated : Validated backend.env id v x.1
  past : since.time ≤ x.1.time
  reads :
    ∀ j call, x.1.recalls j = some call →
      since.recalls j = none ∨ since.time ≤ x.2.fetchedAt j →
        ReadsShow backend.scoring id v call.stage
  answers :
    ∀ j call, x.1.recalls j = some call →
      since.recalls j = none →
        AnswerShows backend.scoring id v call.stage
  entries :
    ∀ key e, x.1.cache.results.peek key = some e →
      since.time ≤ x.2.cachedAt key →
        ∀ r ∈ e.results.results,
          Shows backend.scoring id v r

variable {since : Cached Vec F D}
variable {x y : Cached Vec F D × Observed Vec}

omit [LE F] [LT F] [DecidableLE F] [DecidableLT F] in
/- A step that recalls and cache take no part in. -/
theorem Seen.wait
    {o : Observed Vec}
    (hSeen : Seen backend since id v (s, o))
    (hValidated : Validated backend.env id v t)
    (hTime : t.time = s.time + 1)
    (hRecalls : t.recalls = s.recalls)
    (hResults : t.cache.results = s.cache.results)
    {o' : Observed Vec}
    (hFetched : o'.fetchedAt = o.fetchedAt)
    (hCached : o'.cachedAt = o.cachedAt) :
    Seen backend since id v (t, o') where
  validated := hValidated
  past := by
    change since.time ≤ t.time
    rw [hTime]
    exact Nat.le_succ_of_le hSeen.past
  reads j call hCall hSince := by
    change t.recalls j = some call at hCall
    change _ ∨ since.time ≤ o'.fetchedAt j at hSince
    rw [hRecalls] at hCall
    rw [hFetched] at hSince
    exact hSeen.reads j call hCall hSince
  answers j call hCall := by
    change t.recalls j = some call at hCall
    rw [hRecalls] at hCall
    exact hSeen.answers j call hCall
  entries key e hPeek hSince := by
    change t.cache.results.peek key = some e at hPeek
    change since.time ≤ o'.cachedAt key at hSince
    rw [hResults] at hPeek
    rw [hCached] at hSince
    exact hSeen.entries key e hPeek hSince

omit [LE F] [LT F] [DecidableLE F] [DecidableLT F] in
/- A step of one recall. -/
theorem Seen.setRecall
    {o o' : Observed Vec} {s' : Cached Vec F D} {j : Nat}
    {call' : RecallCall Vec F D}
    (hSeen : Seen backend since id v (s, o))
    (hValidated : Validated backend.env id v s')
    (hTime : s'.time = s.time)
    (hRecalls : s'.recalls = s.recalls)
    (hFetched : ∀ i, i ≠ j → o'.fetchedAt i = o.fetchedAt i)
    (hReads :
      since.recalls j = none ∨ since.time ≤ o'.fetchedAt j →
        ReadsShow backend.scoring id v call'.stage)
    (hAnswer :
      since.recalls j = none →
        AnswerShows backend.scoring id v call'.stage)
    (hEntries :
      ∀ key e, s'.cache.results.peek key = some e →
        since.time ≤ o'.cachedAt key →
          ∀ r ∈ e.results.results,
            Shows backend.scoring id v r) :
    Seen backend since id v (s'.setRecall j call', o') where
  validated := hValidated.same rfl
  past := by
    change since.time ≤ s'.time + 1
    rw [hTime]
    exact Nat.le_succ_of_le hSeen.past
  reads i call hCall hSince := by
    change Function.update s'.recalls j (some call') i = _
      at hCall
    change _ ∨ since.time ≤ o'.fetchedAt i at hSince
    rw [hRecalls, Function.update_apply] at hCall
    split at hCall
    · rename_i hSame
      cases hCall
      exact hReads (hSame ▸ hSince)
    · rename_i hNe
      rw [hFetched i hNe] at hSince
      exact hSeen.reads i call hCall hSince
  answers i call hCall hBegun := by
    change Function.update s'.recalls j (some call') i = _
      at hCall
    rw [hRecalls, Function.update_apply] at hCall
    split at hCall
    · rename_i hSame
      cases hCall
      exact hAnswer (hSame ▸ hBegun)
    · exact hSeen.answers i call hCall hBegun
  entries := hEntries

omit [LT F] [DecidableLT F] in
/- Only a recall that puts its results changes an entry. -/
theorem results_of_not_put
    {s' : Cached Vec F D} {call call' : RecallCall Vec F D}
    (hAdvance : Advance backend s call s' call')
    (hPut : ¬ ∃ q results, call.stage = .put q results) :
    s'.cache.results = s.cache.results := by
  cases hAdvance with
  | put hStage => exact absurd ⟨_, _, hStage⟩ hPut
  | _ => rfl

omit [LE F] [LT F] [DecidableLE F] [DecidableLT F]
  [LT D] [DecidableLT D] in
/- Only such a recall changes the time of an entry. -/
theorem cachedAt_of_not_put
    (o : Observed Vec)
    (now j : Nat)
    {stage : RecallStage Vec F D}
    (next : RecallStage Vec F D)
    (hPut : ¬ ∃ q results, stage = .put q results) :
    (o.advance now j stage next).cachedAt = o.cachedAt := by
  cases stage with
  | put q results => exact absurd ⟨_, _, rfl⟩ hPut
  | _ => rfl

omit [LT F] [DecidableLT F] in
private theorem Seen.advance
    {o : Observed Vec} {j : Nat}
    (hSeen : Seen backend since id v (s, o))
    (hCall : s.recalls j = some call)
    (hGuard : ReadsSince since id (s, o) (.advance j))
    (hStamps : StampsSince id v s (.advance j)) :
    Seen backend since id v
      ((s.advance backend call).1.setRecall j
          (s.advance backend call).2,
        o.advance s.time j call.stage
          (s.advance backend call).2.stage) := by
  have hAdvance := advance_eq backend s call
  have hValidated := hSeen.validated
  have hSame := hAdvance.same
  refine hSeen.setRecall
    (hValidated.advance
      (fun results ids now => hStamps call results ids now
        hCall) hAdvance)
    hSame.2.1 hSame.2.2.2.1 ?_ ?_ ?_ ?_
  · intro i hNe
    cases call.stage with
    | rows q found => exact Function.update_of_ne hNe _ _
    | _ => rfl
  · intro hSince
    refine readsShow_advance hValidated.clock hValidated.rows ?_
    cases hStage : call.stage with
    | rows q found => trivial
    | _ =>
        rw [hStage] at hSince
        rw [← hStage]
        exact hSeen.reads j call hCall hSince
  · intro hBegun
    refine answerShows_advance ?_
      (hSeen.reads j call hCall (.inl hBegun))
      (hSeen.answers j call hCall hBegun)
    intro q currentGen answer hStage hGet r hr hId
    have hSince :=
      hGuard hBegun call q currentGen answer hCall hStage hGet
        ⟨r, hr, hId⟩
    unfold RecallCache.getResults at hGet
    split at hGet
    · rename_i entry hPeek
      split at hGet
      · cases hGet
        exact hSeen.entries q.key entry hPeek hSince r hr hId
      · cases hGet
    · cases hGet
  · intro key e hPeek hSince
    by_cases hPut :
        ∃ q results, call.stage = .put q results
    · rcases hPut with ⟨q, results, hStage⟩
      simp only [Cached.advance, hStage] at hPeek
      rw [hStage] at hSince
      change since.time ≤
        Function.update o.cachedAt q.key (o.fetchedAt j) key
          at hSince
      rw [Function.update_apply] at hSince
      rcases Lru.peek_put hPeek with
        ⟨rfl, rfl⟩ | ⟨hNe, hOld⟩
      · rw [if_pos rfl] at hSince
        have hReads := hSeen.reads j call hCall (.inr hSince)
        rw [hStage] at hReads
        exact hReads
      · rw [if_neg hNe] at hSince
        exact hSeen.entries key e hOld hSince
    · rw [results_of_not_put hAdvance hPut] at hPeek
      rw [cachedAt_of_not_put o s.time j _ hPut] at hSince
      exact hSeen.entries key e hPeek hSince

theorem Seen.next
    {e : Event F}
    (hSeen : Seen backend since id v x)
    (hStep : (observed backend).step x e y)
    (hGuard :
      ReadsSince since id x e ∧ StampsSince id v x.1 e) :
    Seen backend since id v y := by
  rcases x with ⟨s, o⟩
  rcases y with ⟨t, o'⟩
  rcases hStep with ⟨hNext, hRecord⟩
  change s.next backend e = some t at hNext
  change o' = Observed.next s e t o at hRecord
  subst hRecord
  have hValidated := hSeen.validated.next hGuard.2 hNext
  cases next_eq_some hNext with
  | advance j call hCall =>
      rw [observed_advance hCall]
      exact hSeen.advance hCall hGuard.1 hGuard.2
  | «recall» j req hNone =>
      exact hSeen.setRecall hSeen.validated rfl rfl
        (fun _ _ => rfl) (fun _ => trivial) (fun _ => trivial)
        hSeen.entries
  | failRecall j err call stage hCall hFail =>
      refine hSeen.setRecall hSeen.validated rfl rfl
        (fun _ _ => rfl) ?_ ?_ hSeen.entries
      · intro hSince
        have hReads := hSeen.reads j call hCall hSince
        cases hStage : call.stage <;>
          rw [hStage] at hFail hReads <;> cases hFail <;>
          first | exact hReads | trivial
      · intro _
        cases hStage : call.stage <;> rw [hStage] at hFail <;>
          cases hFail <;> trivial
  | flushed ok =>
      cases ok <;>
        exact hSeen.wait hValidated rfl rfl rfl rfl rfl
  | _ => exact hSeen.wait hValidated rfl rfl rfl rfl rfl

/- A validation that has found its row, and is over. -/
theorem Seen.of_stamp
    {i : Nat} {results : List (RecallResult F D)}
    {ids : List String}
    (hTimed : Timed backend.env x)
    (hCall : x.1.recalls i = some call)
    (hStage : call.stage = .stamp results ids v)
    (hId : id ∈ ids)
    (hRow : ∃ r ∈ x.1.sys.world.db.memories, r.id = id)
    (hStep : (observed backend).step x (.advance i) y) :
    Seen backend y.1 id v y := by
  rcases x with ⟨s, o⟩
  rcases y with ⟨t, o'⟩
  rcases hStep with ⟨hNext, hRecord⟩
  change s.next backend (.advance i) = some t at hNext
  change o' = Observed.next s (.advance i) t o at hRecord
  change s.recalls i = some call at hCall
  have hTime : t.time = s.time + 1 := time_next hNext
  have hTimes := observed_times s t (.advance i) o
  rw [← hRecord] at hTimes
  have hPast :
      (∀ j, o'.fetchedAt j ≤ s.time) ∧
        ∀ key, o'.cachedAt key ≤ s.time := by
    constructor
    · intro j
      rcases hTimes.1 j with hSame | hNow
      · rw [hSame]
        exact hTimed.fetched j
      · exact hNow.le
    · intro key
      rcases hTimes.2 key with hSame | ⟨j, hFetched⟩
      · rw [hSame]
        exact hTimed.cached key
      · rw [hFetched]
        exact hTimed.fetched j
  have hSys :
      t.sys = (s.setDb
        (s.sys.world.db.updateLastValidated ids v)).sys := by
    simp only [Cached.next, hCall, Option.some.injEq] at hNext
    rw [← hNext]
    change (s.advance backend call).1.sys = _
    simp only [Cached.advance, hStage]
  refine ⟨?_, le_refl _, ?_, ?_, ?_⟩
  · refine Validated.same (s := s.setDb _) ?_ hSys
    refine ⟨hTimed.ordered.touched
      (Sqlite.touchedRows_updateLastValidated _ _ _), ?_,
        hTimed.stamped i call results ids v hCall hStage, ?_⟩
    · rcases hRow with ⟨r, hr, hSame⟩
      exact ⟨_, hTimed.ordered.sound.world.rows r hr, hSame⟩
    · intro r hr hSame
      exact ⟨_, Sqlite.lastValidated_updateLastValidated hId r
        hr hSame, le_refl _⟩
  · intro j call' hCall' hSince
    rcases hSince with hNone | hSince
    · rw [hCall'] at hNone
      cases hNone
    · have hBefore := hPast.1 j
      change t.time ≤ o'.fetchedAt j at hSince
      omega
  · intro j call' hCall' hNone
    rw [hCall'] at hNone
    cases hNone
  · intro key e _ hSince
    have hBefore := hPast.2 key
    change t.time ≤ o'.cachedAt key at hSince
    omega

/-
  A recall has validated a memory at a time and returned.  A
  recall that begins later shows this in what it returns, if
  no such recall is answered from the cache with a row that
  was fetched before, and if no validation of the memory
  with an older time comes to the writer after this one.
-/
theorem validation_visible
    {sys : System Vec F} {config : CacheConfig}
    {es fs : List (Event F)} {i j : Nat}
    {z : Cached Vec F D × Observed Vec}
    {call' : RecallCall Vec F D} {ids : List String}
    {results results' : List (RecallResult F D)}
    (hIdle : Idle backend.env sys)
    (hRun :
      (observed backend).Run (start sys config, .empty) es x)
    (hCall : x.1.recalls i = some call)
    (hStage : call.stage = .stamp results ids v)
    (hId : id ∈ ids)
    (hRow : ∃ r ∈ x.1.sys.world.db.memories, r.id = id)
    (hStep : (observed backend).step x (.advance i) y)
    (hLater :
      ((observed backend).restrict (fun x e =>
        ReadsSince y.1 id x e ∧
          StampsSince id v x.1 e)).Run y fs z)
    (hBegun : y.1.recalls j = none)
    (hCall' : z.1.recalls j = some call')
    (hDone : call'.stage = .done (.ok results')) :
    ∀ r ∈ results', r.memory.id = id →
      r.memory.ValidatedSince v ∧
        ∃ now, v ≤ now ∧
          r.stalenessScore =
            backend.scoring.stalenessScore r.memory now ∧
          r.freshnessLabel =
            freshnessLabel backend.scoring r.stalenessScore
              (backend.scoring.threshold
                r.memory.memoryType) := by
  have hStamped : Stamped (start (F := F) (D := D) sys config) := by
    intro j call results ids now hCall
    cases hCall
  have hTimed : Timed backend.env x :=
    hRun.invariant
      (fun _ _ _ hTimed hStep => hTimed.next hStep)
      ⟨hIdle.ordered, hStamped, fun _ => Nat.le_refl _,
        fun _ => Nat.le_refl _⟩
  have hSeen : Seen backend y.1 id v z :=
    hLater.restrict_invariant
      (fun _ _ _ hSeen hStep hGuard =>
        hSeen.next hStep hGuard)
      (.of_stamp hTimed hCall hStage hId hRow hStep)
  have hAnswer := hSeen.answers j call' hCall' hBegun
  rw [hDone] at hAnswer
  exact hAnswer

------------------------------------------------------------
-- One Memory Validated and Recalled
------------------------------------------------------------

omit [LE F] [LT F] [DecidableLE F] [DecidableLT F]
  [LT D] [DecidableLT D] in
/- A check of the condition on answers from the cache. -/
def readsSince
    (since : Cached Vec F D)
    (id : String)
    (x : Cached Vec F D × Observed Vec) : Event F → Bool
| .advance j =>
    (since.recalls j).isSome ||
      (x.1.recalls j).all (fun call =>
        match call.stage with
        | .entry q currentGen =>
            (x.1.cache.getResults q.key currentGen).all
              (fun answer =>
                answer.results.all (fun r =>
                  decide (r.memory.id ≠ id)) ||
                  decide (since.time ≤ x.2.cachedAt q.key))
        | _ => true)
| _ => true

omit [DecidableEq Vec] [LE F] [LT F] [DecidableLE F]
  [DecidableLT F] [LT D] [DecidableLT D] in
/- A check of the condition on the times of validations. -/
def stampsSince
    (id : String)
    (v : DateTime)
    (s : Cached Vec F D) : Event F → Bool
| .advance j =>
    (s.recalls j).all (fun call =>
      match call.stage with
      | .stamp _ ids now => decide (id ∈ ids → v ≤ now)
      | _ => true)
| _ => true

omit [DecidableEq Vec] [LE F] [LT F] [DecidableLE F]
  [DecidableLT F] [LT D] [DecidableLT D] in
theorem stampsSince_sound
    (s : Cached Vec F D)
    (e : Event F)
    (h : stampsSince id v s e = true) :
    StampsSince id v s e := by
  cases e with
  | advance j =>
      intro call results ids now hCall hStage
      simp only [stampsSince, hCall, hStage,
        Option.all_some] at h
      exact of_decide_eq_true h
  | _ => trivial

omit [LE F] [LT F] [DecidableLE F] [DecidableLT F]
  [LT D] [DecidableLT D] in
theorem readsSince_sound
    (x : Cached Vec F D × Observed Vec)
    (e : Event F)
    (h : readsSince since id x e = true) :
    ReadsSince since id x e := by
  cases e with
  | advance j =>
      intro hNone call q currentGen answer hCall hStage hGet
      rintro ⟨r, hr, hId⟩
      simp only [readsSince, hNone, hCall, hStage, hGet,
        Option.all_some, Option.isSome_none,
        Bool.false_or, Bool.or_eq_true] at h
      rcases h with hOther | hSince
      · have hNe := List.all_eq_true.mp hOther r hr
        exact absurd hId (of_decide_eq_true hNe)
      · exact of_decide_eq_true hSince
  | _ => trivial

/- The id of the first memory, and a recall that names it. -/
private def firstId : String := Env.plainUuid 0

private def validating : RecallRequest :=
  { RecallRequest.text "tea" with
    validateIds := some [firstId] }

/- A note is stored, and its validation at time 5 waits. -/
private def untilValidate : List (Event Rat) :=
  .sys (.store 0 (.note "tea")) ::
    (List.replicate 9 (.sys (.step 0)) ++
      .bump 0 :: .sys (.tick 5) :: .recall 0 validating ::
        List.replicate 9 (.advance 0))

/- It is validated anew at time 8, and computed anew. -/
private def revalidated : List (Event Rat) :=
  .sys (.tick 3) ::
    .recall 2 { validating with limit := some 2 } ::
      (List.replicate 10 (.advance 2) ++
        .recall 1
          { RecallRequest.text "tea" with limit := some 3 } ::
            List.replicate 9 (.advance 1))

private def emptyObserved :
    Cached String Rat Rat × Observed String :=
  (start System.empty ⟨4, 4⟩, .empty)

private def plainNext
    (x : Cached String Rat Rat × Observed String)
    (e : Event Rat) :
    Option (Cached String Rat Rat × Observed String) :=
  Machine.recordedNext (next Backend.plain) Observed.next x e

/- The recall waits to validate the memory. -/
private def validates
    (x : Cached String Rat Rat × Observed String) : Bool :=
  (x.1.recalls 0).any (fun call =>
    match call.stage with
    | .stamp _ ids now =>
        decide (firstId ∈ ids ∧ now = 5)
    | _ => false) &&
      x.1.sys.world.db.memories.any
        (fun r => decide (r.id = firstId))

/- A recall has returned the memory with a validation. -/
private def returnsFirst
    (j : Nat)
    (lastValidated : Option DateTime)
    (x : Cached String Rat Rat × Observed String) : Bool :=
  (x.1.recalls j).any (fun call =>
    match call.stage with
    | .done (.ok results) =>
        results.any (fun r =>
          decide (r.memory.id = firstId ∧
            r.memory.lastValidated = lastValidated))
    | _ => false)

private theorem validates_iff
    {x : Cached String Rat Rat × Observed String}
    (h : validates x = true) :
    (∃ call results ids, x.1.recalls 0 = some call ∧
      call.stage = .stamp results ids 5 ∧ firstId ∈ ids) ∧
        ∃ r ∈ x.1.sys.world.db.memories, r.id = firstId := by
  unfold validates at h
  rw [Bool.and_eq_true] at h
  constructor
  · rcases (Option.any_eq_true _ _).mp h.1 with
      ⟨call, hCall, hStage⟩
    split at hStage
    · rename_i results ids now hStamp
      rcases of_decide_eq_true hStage with ⟨hId, rfl⟩
      exact ⟨call, results, ids, hCall, hStamp, hId⟩
    · cases hStage
  · rcases List.any_eq_true.mp h.2 with ⟨r, hr, hId⟩
    exact ⟨r, hr, of_decide_eq_true hId⟩

private theorem returnsFirst_iff
    {j : Nat} {lastValidated : Option DateTime}
    {x : Cached String Rat Rat × Observed String}
    (h : returnsFirst j lastValidated x = true) :
    ∃ call results, x.1.recalls j = some call ∧
      call.stage = .done (.ok results) ∧
        ∃ r ∈ results, r.memory.id = firstId ∧
          r.memory.lastValidated = lastValidated := by
  rcases (Option.any_eq_true _ _).mp h with
    ⟨call, hCall, hStage⟩
  split at hStage
  · rename_i results hDone
    rcases List.any_eq_true.mp hStage with ⟨r, hr, hBoth⟩
    exact ⟨call, results, hCall, hDone, r, hr,
      of_decide_eq_true hBoth⟩
  · cases hStage

/- A run up to the validation, its step, and a later run. -/
private theorem validated_run
    (later : List (Event Rat))
    (lastValidated : Option DateTime)
    (check :
      Cached String Rat Rat →
        Cached String Rat Rat × Observed String →
          Event Rat → Bool)
    (guard :
      Cached String Rat Rat →
        Cached String Rat Rat × Observed String →
          Event Rat → Prop)
    (hCheck :
      ∀ since x e, check since x e = true → guard since x e)
    (h :
      (untilValidate.foldlM
        (Machine.checked plainNext (fun _ _ => true))
          emptyObserved).any
        (fun x => validates x && (plainNext x (.advance 0)).any
          (fun y => (y.1.recalls 1).isNone &&
            (later.foldlM
              (Machine.checked plainNext (check y.1)) y).any
                (returnsFirst 1 lastValidated))) = true) :
    ∃ x y z,
      (observed Backend.plain).Run emptyObserved untilValidate
        x ∧
      validates x = true ∧
      (observed Backend.plain).step x (.advance 0) y ∧
      y.1.recalls 1 = none ∧
      ((observed Backend.plain).restrict (guard y.1)).Run y
        later z ∧
      returnsFirst 1 lastValidated z = true := by
  rcases observed_of_any Backend.plain emptyObserved
    untilValidate (fun _ _ => true) (fun _ _ => True)
    (fun _ _ _ => trivial) _ h with ⟨x, hRun, hTest⟩
  rw [Bool.and_eq_true] at hTest
  rcases (Option.any_eq_true _ _).mp hTest.2 with
    ⟨y, hStep, hLater⟩
  rw [Bool.and_eq_true] at hLater
  rcases observed_of_any Backend.plain y later (check y.1)
    (guard y.1) (hCheck y.1) _ hLater.2 with ⟨z, hRest, hEnd⟩
  rcases Option.map_eq_some_iff.mp hStep with ⟨t, hNext, rfl⟩
  exact ⟨x, (t, Observed.next x.1 (.advance 0) t x.2), z,
    hRun.of_restrict, hTest.1, ⟨hNext, rfl⟩,
    Option.isNone_iff_eq_none.mp hLater.1, hRest, hEnd⟩

/-
  A recall that is computed anew shows the memory as it was
  validated at time 5, or later.
-/
theorem validation_visible_recomputed :
    ∃ (z : Cached String Rat Rat × Observed String)
        (call' : RecallCall String Rat Rat)
        (results' : List (RecallResult Rat Rat))
        (es : List (Event Rat)),
      (observed Backend.plain).Run
          (start System.empty ⟨4, 4⟩, .empty) es z ∧
        z.1.recalls 1 = some call' ∧
        call'.stage = .done (.ok results') ∧
        ∃ r ∈ results', r.memory.id = Env.plainUuid 0 ∧
          r.memory.ValidatedSince 5 := by
  rcases validated_run revalidated (some 8)
    (fun since x e =>
      readsSince since firstId x e && stampsSince firstId 5 x.1 e)
    (fun since x e =>
      ReadsSince since firstId x e ∧ StampsSince firstId 5 x.1 e)
    (fun since x e h =>
      ⟨readsSince_sound x e (Bool.and_eq_true _ _ ▸ h).1,
        stampsSince_sound x.1 e (Bool.and_eq_true _ _ ▸ h).2⟩)
    (by decide +kernel) with
    ⟨x, y, z, hRun, hTest, hStep, hNone, hLater, hEnd⟩
  rcases validates_iff hTest with
    ⟨⟨call, results, ids, hCall, hStage, hId⟩, hRow⟩
  rcases returnsFirst_iff hEnd with
    ⟨call', results', hCall', hDone, r, hr, hFirst, _⟩
  refine ⟨z, call', results', _,
    (hRun.snoc hStep).append hLater.of_restrict, hCall', hDone,
      r, hr, hFirst, ?_⟩
  exact (validation_visible (start_empty _).toIdle hRun hCall
    hStage hId hRow hStep hLater hNone hCall' hDone r hr
      hFirst).1

/-
  The same question is answered from the cache, and the
  result does not show the validation.
-/
theorem validation_hidden_by_cache :
    ∃ (x y z : Cached String Rat Rat × Observed String)
        (call call' : RecallCall String Rat Rat)
        (results results' : List (RecallResult Rat Rat))
        (ids : List String) (v : DateTime)
        (es fs : List (Event Rat)),
      (observed Backend.plain).Run
          (start System.empty ⟨4, 4⟩, .empty) es x ∧
        x.1.recalls 0 = some call ∧
        call.stage = .stamp results ids v ∧
        Env.plainUuid 0 ∈ ids ∧
        (∃ r ∈ x.1.sys.world.db.memories,
          r.id = Env.plainUuid 0) ∧
        (observed Backend.plain).step x (.advance 0) y ∧
        (observed Backend.plain).Run y fs z ∧
        y.1.recalls 1 = none ∧
        z.1.recalls 1 = some call' ∧
        call'.stage = .done (.ok results') ∧
        ∃ r ∈ results', r.memory.id = Env.plainUuid 0 ∧
          ¬ r.memory.ValidatedSince v := by
  rcases validated_run
    (.recall 1 (.text "tea") :: List.replicate 5 (.advance 1))
    none (fun _ _ _ => true) (fun _ _ _ => True)
    (fun _ _ _ _ => trivial) (by decide +kernel) with
    ⟨x, y, z, hRun, hTest, hStep, hNone, hLater, hEnd⟩
  rcases validates_iff hTest with
    ⟨⟨call, results, ids, hCall, hStage, hId⟩, hRow⟩
  rcases returnsFirst_iff hEnd with
    ⟨call', results', hCall', hDone, r, hr, hFirst, hHidden⟩
  refine ⟨x, y, z, call, call', results, results', ids, 5, _, _,
    hRun, hCall, hStage, hId, hRow, hStep, hLater.of_restrict,
      hNone, hCall', hDone, r, hr, hFirst, ?_⟩
  rintro ⟨t, hSome, _⟩
  rw [hHidden] at hSome
  cases hSome

end Cached

end Core

end Ferrex
