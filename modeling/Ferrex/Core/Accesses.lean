import Ferrex.Core.Cached

/-
  The accesses that recalls record, the batches in which the
  tracker hands them out, and when the rows of an answer
  were fetched: a record that the steps of the service
  extend.  A recall that takes its answer from the cache
  records no access.

  Main declarations:
    * `Observed`, `Cached.observed`
    * `Observed.Ledger`
    * `Cached.Recomputes`
    * `returned_accesses_recorded`
    * `cached_answer_unrecorded`
-/

------------------------------------------------------------
-- Record of a Step
------------------------------------------------------------

namespace Ferrex

namespace Core

open Store

variable {Vec F D : Type}

def resultIds
    (results : List (RecallResult F D)) : List String :=
  results.map (fun r => r.memory.id)

namespace RecallStage

/- The ids whose access a step from one stage records. -/
def accesses :
    RecallStage Vec F D → RecallStage Vec F D → List String
| .rerank _ _, .flush _ results _ => resultIds results
| .rerank _ _, .put _ results => resultIds results
| _, _ => []

/- The batch that it takes from the tracker. -/
def drained :
    RecallStage Vec F D → RecallStage Vec F D →
      List (List String)
| .rerank _ _, .flush _ _ ids => [ids]
| _, _ => []

end RecallStage

/-
  Accesses by call and id, batches that were drained, and
  times at which rows were fetched: those of a call, and
  those of the answer that is kept under a key.
-/
structure Observed (Vec : Type) where
  accesses : List (Nat × String)
  batches : List (List String)
  fetchedAt : Nat → Nat
  cachedAt : ResultCacheKeyInput Vec → Nat

namespace Observed

def empty : Observed Vec where
  accesses := []
  batches := []
  fetchedAt _ := 0
  cachedAt _ := 0

/- The ids whose access a call has recorded. -/
def accessesOf (o : Observed Vec) (j : Nat) : List String :=
  (o.accesses.filter (fun a => a.1 = j)).map Prod.snd

variable [DecidableEq Vec]

/- A step of a recall from one stage to the next. -/
def advance
    (o : Observed Vec)
    (now j : Nat)
    (stage next : RecallStage Vec F D) : Observed Vec where
  accesses :=
    o.accesses ++ (stage.accesses next).map (fun id => (j, id))
  batches := o.batches ++ stage.drained next
  fetchedAt :=
    match stage with
    | .rows _ _ => Function.update o.fetchedAt j now
    | _ => o.fetchedAt
  cachedAt :=
    match stage with
    | .put q _ =>
        Function.update o.cachedAt q.key (o.fetchedAt j)
    | _ => o.cachedAt

/- What a step of the service adds to the record. -/
def next
    (s : Cached Vec F D)
    (e : Cached.Event F)
    (t : Cached Vec F D)
    (o : Observed Vec) : Observed Vec :=
  match e with
  | .advance j =>
      match s.recalls j, t.recalls j with
      | some call, some call' =>
          o.advance s.time j call.stage call'.stage
      | _, _ => o
  | .drain => { o with batches := o.batches ++ [t.background] }
  | _ => o

end Observed

variable [DecidableEq Vec]
variable [LE F] [LT F] [DecidableLE F] [DecidableLT F]
variable [LT D] [DecidableLT D]

/- The service with this record. -/
def Cached.observed
    (backend : Backend Vec F D) :
    Machine (Cached Vec F D × Observed Vec) (Cached.Event F) :=
  (Cached.machine backend).recorded .empty Observed.next

------------------------------------------------------------
-- Batches
------------------------------------------------------------

omit [DecidableEq Vec] [LE F] [LT F] [DecidableLE F]
  [DecidableLT F] [LT D] [DecidableLT D] in
/-
  The batches are the recorded accesses, cut in pieces and
  each id once in a piece; the tracker has the rest.
-/
def Observed.Ledger
    (o : Observed Vec)
    (tracker : AccessTracker) : Prop :=
  ∃ (pieces : List (List (Nat × String)))
      (rest : List (Nat × String)),
    o.accesses = pieces.flatten ++ rest ∧
      o.batches =
        pieces.map (fun p => (p.map Prod.snd).eraseDups) ∧
        tracker.buffer = rest.map Prod.snd

namespace Observed

variable {o o' : Observed Vec} {tracker : AccessTracker}

omit [DecidableEq Vec]

theorem Ledger.empty :
    Ledger (.empty : Observed Vec) .new :=
  ⟨[], [], rfl, rfl, rfl⟩

/- Accesses that are recorded without a drain. -/
theorem Ledger.record
    {tracker' : AccessTracker}
    (news : List (Nat × String))
    (hLedger : o.Ledger tracker)
    (hAccesses : o'.accesses = o.accesses ++ news)
    (hBatches : o'.batches = o.batches)
    (hBuffer :
      tracker'.buffer = tracker.buffer ++ news.map Prod.snd) :
    o'.Ledger tracker' := by
  rcases hLedger with ⟨pieces, rest, hAll, hCut, hRest⟩
  refine ⟨pieces, rest ++ news, ?_, hBatches.trans hCut, ?_⟩
  · rw [hAccesses, hAll, List.append_assoc]
  · rw [hBuffer, hRest, List.map_append]

/- A drain makes a batch of what the tracker has. -/
theorem Ledger.drain
    {tracker' : AccessTracker}
    (hLedger : o.Ledger tracker)
    (hAccesses : o'.accesses = o.accesses)
    (hBatches :
      o'.batches = o.batches ++ [tracker.buffer.eraseDups])
    (hBuffer : tracker'.buffer = []) :
    o'.Ledger tracker' := by
  rcases hLedger with ⟨pieces, rest, hAll, hCut, hRest⟩
  refine ⟨pieces ++ [rest], [], ?_, ?_, hBuffer⟩
  · rw [hAccesses, hAll]
    simp
  · rw [hBatches, hCut, hRest, List.map_append]
    rfl

end Observed

namespace Cached

variable {backend : Backend Vec F D}
variable {s t : Cached Vec F D}
variable {call : RecallCall Vec F D}

omit [LT F] [DecidableLT F] in
/- What a step of a recall does to the tracker. -/
theorem advance_tracker
    (backend : Backend Vec F D)
    (s : Cached Vec F D)
    (call : RecallCall Vec F D) :
    let t := s.advance backend call
    let news := call.stage.accesses t.2.stage
    (call.stage.drained t.2.stage = [] ∧
        t.1.tracker.buffer = s.tracker.buffer ++ news) ∨
      (call.stage.drained t.2.stage =
          [(s.tracker.buffer ++ news).eraseDups] ∧
        t.1.tracker.buffer = []) := by
  cases hStage : call.stage with
  | rerank q ordered =>
      simp only [advance, hStage]
      split
      · exact .inl ⟨rfl, (List.append_nil _).symm⟩
      · rename_i reranked _
        unfold AccessTracker.drainIfFull
        split
        · rename_i hDrain
          split at hDrain
          · cases hDrain
          · cases hDrain
            exact .inr ⟨rfl, rfl⟩
        · rename_i hDrain
          split at hDrain
          · cases hDrain
            exact .inl ⟨rfl, rfl⟩
          · cases hDrain
  | embed req =>
      left
      simp only [advance, hStage]
      split <;> exact ⟨rfl, (List.append_nil _).symm⟩
  | entry q currentGen =>
      left
      simp only [advance, hStage]
      split <;> exact ⟨rfl, (List.append_nil _).symm⟩
  | search q =>
      left
      simp only [advance, hStage]
      split
      · exact ⟨rfl, (List.append_nil _).symm⟩
      · split <;> exact ⟨rfl, (List.append_nil _).symm⟩
  | rows q found =>
      left
      simp only [advance, hStage]
      split <;> exact ⟨rfl, (List.append_nil _).symm⟩
  | validate req results =>
      left
      simp only [advance, hStage]
      split <;> exact ⟨rfl, (List.append_nil _).symm⟩
  | _ =>
      left
      simp only [advance, hStage]
      exact ⟨rfl, (List.append_nil _).symm⟩

end Cached

------------------------------------------------------------
-- Recorded Accesses
------------------------------------------------------------

/- The accesses that a call must have recorded by a stage. -/
def RecallStage.due :
    RecallStage Vec F D → Option (List String)
| .flush _ results _ => some (resultIds results)
| .put _ results => some (resultIds results)
| .validate _ results => some (resultIds results)
| .stamp results _ _ => some (resultIds results)
| .done (.ok results) => some (resultIds results)
| .done (.error _) => none
| _ => some []

namespace Cached

variable {backend : Backend Vec F D}
variable {s t : Cached Vec F D}
variable {call : RecallCall Vec F D}

/- No recall takes an answer with results from the cache. -/
def Recomputes
    (x : Cached Vec F D × Observed Vec) : Event F → Prop
| .advance j =>
    ∀ call q currentGen answer, x.1.recalls j = some call →
      call.stage = .entry q currentGen →
        x.1.cache.getResults q.key currentGen = some answer →
          answer.results = []
| _ => True

/-
  Every call has recorded what it must have by its stage,
  and the tracker's batches are made of these accesses.
-/
structure Recorded
    (x : Cached Vec F D × Observed Vec) : Prop where
  calls :
    ∀ j call ids, x.1.recalls j = some call →
      call.stage.due = some ids → x.2.accessesOf j = ids
  idle : ∀ j, x.1.recalls j = none → x.2.accessesOf j = []
  ledger : x.2.Ledger x.1.tracker

omit [DecidableEq Vec] [LE F] [LT F] [DecidableLE F]
  [DecidableLT F] [LT D] [DecidableLT D] in
theorem Recorded.start
    (sys : System Vec F)
    (config : CacheConfig) :
    Recorded
      ((Cached.start sys config, .empty) :
        Cached Vec F D × Observed Vec) where
  calls j call ids h := by cases h
  idle j _ := rfl
  ledger := .empty

omit [LT F] [DecidableLT F] in
/- A step of a recall adds to the accesses that are due. -/
theorem advance_due
    {ids : List String}
    (hGuard :
      ∀ q currentGen answer,
        call.stage = .entry q currentGen →
          s.cache.getResults q.key currentGen = some answer →
            answer.results = [])
    (hDue :
      (s.advance backend call).2.stage.due = some ids) :
    ∃ before, call.stage.due = some before ∧
      ids = before ++
        call.stage.accesses (s.advance backend call).2.stage := by
  cases hStage : call.stage with
  | embed req =>
      simp only [advance, hStage] at hDue ⊢
      split at hDue <;> cases hDue <;> exact ⟨[], rfl, rfl⟩
  | generation req embedding =>
      simp only [advance, hStage] at hDue ⊢
      cases hDue
      exact ⟨[], rfl, rfl⟩
  | lookup q =>
      simp only [advance, hStage] at hDue ⊢
      cases hDue
      exact ⟨[], rfl, rfl⟩
  | entry q currentGen =>
      simp only [advance, hStage] at hDue ⊢
      split at hDue
      · rename_i answer hGet
        cases hDue
        refine ⟨[], rfl, ?_⟩
        rw [hGuard q currentGen answer hStage hGet]
        rfl
      · cases hDue
        exact ⟨[], rfl, rfl⟩
  | search q =>
      simp only [advance, hStage] at hDue ⊢
      split at hDue
      · cases hDue
      · split at hDue <;> cases hDue <;> exact ⟨[], rfl, rfl⟩
  | rows q found =>
      simp only [advance, hStage] at hDue ⊢
      split at hDue <;> cases hDue <;> exact ⟨[], rfl, rfl⟩
  | rerank q ordered =>
      refine ⟨[], rfl, ?_⟩
      simp only [advance, hStage] at hDue ⊢
      cases hCall :
          backend.search.rerank q.req.query
            (ordered.map searchableText) ordered.length with
      | error e =>
          rw [hCall] at hDue
          cases hDue
      | ok reranked =>
          rw [hCall] at hDue
          dsimp only at hDue ⊢
          split at hDue <;> cases hDue <;> rfl
  | flush q results ids' =>
      simp only [advance, hStage] at hDue ⊢
      cases hDue
      exact ⟨_, rfl, (List.append_nil _).symm⟩
  | put q results =>
      simp only [advance, hStage] at hDue ⊢
      cases hDue
      exact ⟨_, rfl, (List.append_nil _).symm⟩
  | validate req results =>
      simp only [advance, hStage] at hDue ⊢
      split at hDue <;> cases hDue <;>
        exact ⟨_, rfl, (List.append_nil _).symm⟩
  | stamp results ids' now =>
      simp only [advance, hStage] at hDue ⊢
      cases hDue
      exact ⟨_, rfl, (List.append_nil _).symm⟩
  | done result =>
      simp only [advance, hStage] at hDue ⊢
      exact ⟨ids, hDue, by simp [RecallStage.accesses]⟩

omit [LT F] [DecidableLT F] in
private theorem Recorded.advance
    {o : Observed Vec} {j : Nat}
    (hRecorded : Recorded (s, o))
    (hCall : s.recalls j = some call)
    (hGuard : Recomputes (s, o) (.advance j)) :
    Recorded
      ((s.advance backend call).1.setRecall j
          (s.advance backend call).2,
        o.advance s.time j call.stage
          (s.advance backend call).2.stage) := by
  have hRecalls := (advance_eq backend s call).same.2.2.2.1
  have hOwn :
      ∀ stage : RecallStage Vec F D,
        (o.advance s.time j call.stage stage).accessesOf j =
          o.accessesOf j ++ call.stage.accesses stage := by
    intro stage
    simp [Observed.advance, Observed.accessesOf,
      List.filter_map, Function.comp_def]
  have hOther :
      ∀ (stage : RecallStage Vec F D) (i : Nat), i ≠ j →
        (o.advance s.time j call.stage stage).accessesOf i =
          o.accessesOf i := by
    intro stage i hNe
    simp [Observed.advance, Observed.accessesOf,
      List.filter_map, Function.comp_def, Ne.symm hNe]
  constructor
  case calls =>
    intro i call' ids hCall' hDue
    change Function.update (s.advance backend call).1.recalls j
      (some (s.advance backend call).2) i = _ at hCall'
    rw [hRecalls, Function.update_apply] at hCall'
    split at hCall'
    · rename_i hSame
      subst hSame
      cases hCall'
      rcases advance_due
          (fun q currentGen answer =>
            hGuard call q currentGen answer hCall) hDue with
        ⟨before, hBefore, rfl⟩
      rw [hOwn, hRecorded.calls i call before hCall hBefore]
    · rename_i hNe
      rw [hOther _ i hNe]
      exact hRecorded.calls i call' ids hCall' hDue
  case idle =>
    intro i hNone
    change Function.update (s.advance backend call).1.recalls j
      (some (s.advance backend call).2) i = _ at hNone
    rw [hRecalls, Function.update_apply] at hNone
    split at hNone
    · cases hNone
    · rename_i hNe
      rw [hOther _ i hNe]
      exact hRecorded.idle i hNone
  case ledger =>
    have hNews :
        o.Ledger s.tracker → ∀ tracker' : AccessTracker,
          tracker'.buffer = s.tracker.buffer ++
              call.stage.accesses
                (s.advance backend call).2.stage →
            Observed.Ledger
              { o with
                accesses := o.accesses ++
                  (call.stage.accesses
                    (s.advance backend call).2.stage).map
                      (fun id => (j, id)) } tracker' := by
      intro hLedger tracker' hBuffer
      refine hLedger.record _ rfl rfl ?_
      rw [hBuffer, List.map_map]
      exact congrArg _ (List.map_id' _).symm
    rcases advance_tracker backend s call with
      ⟨hNone, hBuffer⟩ | ⟨hSome, hBuffer⟩
    · refine Observed.Ledger.record
        [] (hNews hRecorded.ledger _ hBuffer)
          (List.append_nil _).symm ?_
          (List.append_nil _).symm
      change o.batches ++ _ = o.batches
      rw [hNone, List.append_nil]
    · refine Observed.Ledger.drain
        (hNews hRecorded.ledger
          { s.tracker with
            buffer := s.tracker.buffer ++
              call.stage.accesses
                (s.advance backend call).2.stage } rfl)
        rfl ?_ hBuffer
      change o.batches ++ _ = o.batches ++ _
      rw [hSome]

/- What is recorded when a recall takes its step. -/
omit [LT F] [DecidableLT F] in
theorem observed_advance
    {s : Cached Vec F D} {o : Observed Vec}
    {j : Nat} {call : RecallCall Vec F D}
    (hCall : s.recalls j = some call) :
    Observed.next s (.advance j)
        ((s.advance backend call).1.setRecall j
          (s.advance backend call).2) o =
      o.advance s.time j call.stage
        (s.advance backend call).2.stage := by
  have hSelf :
      ((s.advance backend call).1.setRecall j
        (s.advance backend call).2).recalls j =
          some (s.advance backend call).2 :=
    Function.update_self _ _ _
  simp only [Observed.next, hCall, hSelf]

theorem Recorded.next
    {x y : Cached Vec F D × Observed Vec} {e : Event F}
    (hRecorded : Recorded x)
    (hStep : (observed backend).step x e y)
    (hGuard : Recomputes x e) :
    Recorded y := by
  rcases x with ⟨s, o⟩
  rcases y with ⟨t, o'⟩
  rcases hStep with ⟨hNext, hRecord⟩
  change s.next backend e = some t at hNext
  change o' = Observed.next s e t o at hRecord
  subst hRecord
  -- A step of no recall, which leaves its tracker alone.
  have hSame :
      ∀ t : Cached Vec F D, t.recalls = s.recalls →
        t.tracker = s.tracker → Recorded (t, o) := by
    intro t hRecalls hTracker
    refine ⟨?_, ?_, ?_⟩
    · intro j call ids hCall
      exact hRecorded.calls j call ids (hRecalls ▸ hCall)
    · intro j hNone
      exact hRecorded.idle j (hRecalls ▸ hNone)
    · change o.Ledger t.tracker
      rw [hTracker]
      exact hRecorded.ledger
  have hSet :
      ∀ (j : Nat) (call : RecallCall Vec F D),
        (∀ ids, call.stage.due = some ids →
          o.accessesOf j = ids) →
            Recorded (s.setRecall j call, o) := by
    intro j call hDue
    refine ⟨?_, ?_, hRecorded.ledger⟩
    · intro i call' ids hCall'
      change Function.update s.recalls j (some call) i = _
        at hCall'
      rw [Function.update_apply] at hCall'
      split at hCall'
      · rename_i hEq
        cases hCall'
        rw [hEq]
        exact hDue ids
      · exact hRecorded.calls i call' ids hCall'
    · intro i hNone
      change Function.update s.recalls j (some call) i = _
        at hNone
      rw [Function.update_apply] at hNone
      split at hNone
      · cases hNone
      · exact hRecorded.idle i hNone
  cases next_eq_some hNext with
  | sys e sys _ _ _ _ => exact hSame _ rfl rfl
  | step i task sys _ _ _ => exact hSame _ rfl rfl
  | bump i ns _ => exact hSame _ rfl rfl
  | flushed ok => cases ok <;> exact hSame _ rfl rfl
  | «recall» j req hNone =>
      refine hSet j _ ?_
      intro ids hDue
      cases hDue
      exact hRecorded.idle j hNone
  | failRecall j err call stage hCall hFail =>
      refine hSet j _ ?_
      intro ids hDue
      refine hRecorded.calls j call ids hCall ?_
      cases hStage : call.stage <;> rw [hStage] at hFail <;>
        cases hFail <;> first | exact hDue | cases hDue
  | drain hIdle =>
      refine ⟨hRecorded.calls, hRecorded.idle, ?_⟩
      exact hRecorded.ledger.drain rfl rfl rfl
  | advance j call hCall =>
      rw [observed_advance hCall]
      exact hRecorded.advance hCall hGuard

/-
  A recall that has returned has recorded one access of each
  memory in its results, and the flushes are made of these
  accesses, if no recall takes results from the cache.
-/
theorem returned_accesses_recorded
    {x : Cached Vec F D × Observed Vec}
    (hReach :
      ((observed backend).restrict Recomputes).Reachable x) :
    (∀ j call results, x.1.recalls j = some call →
      call.stage = .done (.ok results) →
        x.2.accessesOf j = resultIds results) ∧
      x.2.Ledger x.1.tracker := by
  rcases hReach with ⟨⟨s, o⟩, es, ⟨hStart, rfl⟩, hRun⟩
  rcases hStart with ⟨sys, config, rfl, _⟩
  have hRecorded : Recorded x :=
    hRun.restrict_invariant
      (fun _ _ _ h hStep hGuard => h.next hStep hGuard)
      (.start sys config)
  refine ⟨?_, hRecorded.ledger⟩
  intro j call results hCall hStage
  exact hRecorded.calls j call _ hCall (by rw [hStage]; rfl)

/- A computed run, with the record, of checked steps. -/
theorem observed_of_any
    (backend : Backend Vec F D)
    (x : Cached Vec F D × Observed Vec)
    (es : List (Event F))
    (check : Cached Vec F D × Observed Vec → Event F → Bool)
    (guard : Cached Vec F D × Observed Vec → Event F → Prop)
    (hCheck : ∀ x e, check x e = true → guard x e)
    (test : Cached Vec F D × Observed Vec → Bool)
    (h :
      (es.foldlM
        (Machine.checked
          (Machine.recordedNext (next backend) Observed.next)
          check) x).any test = true) :
    ∃ y, ((observed backend).restrict guard).Run x es y ∧
      test y = true :=
  Machine.Run.recorded_of_any _ x es test hCheck h

------------------------------------------------------------
-- One Memory Recalled Twice
------------------------------------------------------------

omit [LE F] [LT F] [DecidableLE F] [DecidableLT F]
  [LT D] [DecidableLT D] in
/- A check that a step takes no results from the cache. -/
def recomputes
    (x : Cached Vec F D × Observed Vec) : Event F → Bool
| .advance j =>
    (x.1.recalls j).all (fun call =>
      match call.stage with
      | .entry q currentGen =>
          (x.1.cache.getResults q.key currentGen).all
            (fun answer => answer.results.isEmpty)
      | _ => true)
| _ => true

omit [LE F] [LT F] [DecidableLE F] [DecidableLT F]
  [LT D] [DecidableLT D] in
theorem recomputes_sound
    (x : Cached Vec F D × Observed Vec)
    (e : Event F)
    (h : recomputes x e = true) :
    Recomputes x e := by
  cases e with
  | advance j =>
      intro call q currentGen answer hCall hStage hGet
      simp only [recomputes, hCall, hStage, hGet,
        Option.all_some] at h
      exact List.isEmpty_iff.mp h
  | _ => trivial

/- A note is stored and recalled, and its access flushed. -/
private def flushedOnce : List (Event Rat) :=
  .sys (.store 0 (.note "tea")) ::
    (List.replicate 9 (.sys (.step 0)) ++
      .bump 0 :: .recall 0 (.text "tea") ::
        (List.replicate 9 (.advance 0) ++
          [.drain, .flushed true]))

/- The same question is asked and its access flushed. -/
private def flushedAgain : List (Event Rat) :=
  .recall 1 (.text "tea") ::
    (List.replicate 5 (.advance 1) ++ [.drain, .flushed true])

/- Whether a recall has returned some results. -/
private def returnsSome
    (j : Nat)
    (s : Cached String Rat Rat) : Bool :=
  (s.recalls j).any (fun call =>
    match call.stage with
    | .done (.ok results) => !results.isEmpty
    | _ => false)

private theorem returnsSome_iff
    {j : Nat} {s : Cached String Rat Rat}
    (h : returnsSome j s = true) :
    ∃ call results, s.recalls j = some call ∧
      call.stage = .done (.ok results) ∧ results ≠ [] := by
  rcases (Option.any_eq_true _ _).mp h with
    ⟨call, hCall, hStage⟩
  refine ⟨call, ?_⟩
  split at hStage
  · rename_i results hDone
    exact ⟨results, hCall, hDone, by simpa using hStage⟩
  · cases hStage

private def emptyStart : Cached String Rat Rat × Observed String :=
  (start System.empty ⟨4, 4⟩, .empty)

theorem returned_accesses_recorded_once :
    ∃ (x : Cached String Rat Rat × Observed String)
        (call : RecallCall String Rat Rat)
        (results : List (RecallResult Rat Rat)),
      x.1.recalls 0 = some call ∧
        call.stage = .done (.ok results) ∧ results ≠ [] ∧
          x.2.accessesOf 0 = resultIds results := by
  rcases observed_of_any Backend.plain emptyStart flushedOnce
    recomputes Recomputes recomputes_sound
    (fun x => returnsSome 0 x.1) (by decide +kernel) with
    ⟨x, hRun, hTest⟩
  rcases returnsSome_iff hTest with
    ⟨call, results, hCall, hStage, hSome⟩
  refine ⟨x, call, results, hCall, hStage, hSome, ?_⟩
  exact (returned_accesses_recorded
    ⟨emptyStart, flushedOnce,
      ⟨⟨System.empty, ⟨4, 4⟩, rfl, rfl, fun _ => rfl⟩, rfl⟩,
      hRun⟩).1 0 call results hCall hStage

/-
  Two recalls return a memory and each is followed by a
  flush: the one that hits the cache records no access, and
  the row counts one.
-/
theorem cached_answer_unrecorded :
    ∃ x : Cached String Rat Rat × Observed String,
      (observed Backend.plain).Reachable x ∧
      (∃ call results, x.1.recalls 0 = some call ∧
        call.stage = .done (.ok results) ∧ results ≠ []) ∧
      (∃ call results, x.1.recalls 1 = some call ∧
        call.stage = .done (.ok results) ∧ results ≠ []) ∧
      x.2.accessesOf 1 = [] ∧
      x.1.sys.world.db.memories.map
        (fun r => r.accessCount) = [1] := by
  rcases observed_of_any Backend.plain emptyStart
    (flushedOnce ++ flushedAgain) (fun _ _ => true)
    (fun _ _ => True) (fun _ _ _ => trivial)
    (fun x => returnsSome 0 x.1 && returnsSome 1 x.1 &&
      decide (x.2.accessesOf 1 = [] ∧
        x.1.sys.world.db.memories.map
          (fun r => r.accessCount) = [1]))
    (by decide +kernel) with ⟨x, hRun, hTest⟩
  rw [Bool.and_eq_true, Bool.and_eq_true,
    decide_eq_true_iff] at hTest
  refine ⟨x, ?_, returnsSome_iff hTest.1.1,
    returnsSome_iff hTest.1.2, hTest.2⟩
  exact Machine.Reachable.of_restrict
    ⟨emptyStart, _,
      ⟨⟨System.empty, ⟨4, 4⟩, rfl, rfl, fun _ => rfl⟩, rfl⟩,
      hRun⟩

end Cached

end Core

end Ferrex
