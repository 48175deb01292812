import Ferrex.Lib.Transition
import Ferrex.Lib.History
import Ferrex.Lib.Firsts
import Ferrex.Core.AccessTracker
import Ferrex.Store.AccessStatement

/-
  Threads that record and drain accesses: under the lock of
  the buffer every call is as if it were made alone, so what
  is recorded comes out of the next drain, once.

  Main declarations:
    * `SharedTracker.machine`
    * `AccessTracker.call`, `SharedTracker.Sequential`
    * `Pending`, `Conserves`, `NoneLost`
    * `accesses_conserved`
-/

------------------------------------------------------------
-- Calls of a Tracker
------------------------------------------------------------

namespace Ferrex

namespace Core

open Store

/- The calls of the tracker. -/
inductive TrackerCall
| record (ids : List String)
| drain
| drainIfFull
deriving DecidableEq

/- The ids that a call adds. -/
def TrackerCall.recorded : TrackerCall → List String
| .record ids => ids
| .drain => []
| .drainIfFull => []

/- A call that nothing interrupts. -/
def AccessTracker.call
    (tracker : AccessTracker) :
    TrackerCall → Option (List String) × AccessTracker
| .record ids => (none, tracker.record ids)
| .drain => (some tracker.drain.1, tracker.drain.2)
| .drainIfFull => tracker.drainIfFull

------------------------------------------------------------
-- Threads
------------------------------------------------------------

/-
  Where the thread that has the lock is. The ids of a drain
  that are kept are those that its set has seen.
-/
inductive Critical
| recording (rest : List String)
| checking
| draining (rest kept : List String)
| leaving (answer : Option (List String))
deriving DecidableEq

/- `buf.drain(..)` leaves the buffer empty from the start. -/
def AccessTracker.startDrain
    (tracker : AccessTracker) : AccessTracker × Critical :=
  ({ tracker with buffer := [] }, .draining tracker.buffer [])

/- A call begins once it has the lock. -/
def AccessTracker.enter
    (tracker : AccessTracker) :
    TrackerCall → AccessTracker × Critical
| .record ids => (tracker, .recording ids)
| .drain => tracker.startDrain
| .drainIfFull => (tracker, .checking)

/- One step inside the lock. -/
def AccessTracker.advance
    (tracker : AccessTracker) :
    Critical → Option (AccessTracker × Critical)
| .recording [] => some (tracker, .leaving none)
| .recording (id :: rest) =>
    some (tracker.record [id], .recording rest)
| .checking =>
    if tracker.buffer.length < tracker.flushThreshold then
      some (tracker, .leaving none)
    else
      some tracker.startDrain
| .draining [] kept => some (tracker, .leaving (some kept))
| .draining (id :: rest) kept =>
    some (tracker, .draining rest (Firsts.keep kept id))
| .leaving _ => none

/- The buffer behind its lock, with the thread inside. -/
structure SharedTracker where
  tracker : AccessTracker
  inside : Option (Nat × TrackerCall × Critical)
deriving DecidableEq

/-
  What can happen: a call takes the lock, works, and lets go
  of it.
-/
inductive TrackerEvent
| lock (i : Nat) (call : TrackerCall)
| work (i : Nat)
| unlock
    (i : Nat)
    (call : TrackerCall)
    (answer : Option (List String))
deriving DecidableEq

namespace SharedTracker

/- The tracker under its lock, step by step. -/
def next
    (s : SharedTracker) :
    TrackerEvent → Option SharedTracker
| .lock i call =>
    match s.inside with
    | some _ => none
    | none =>
        let entered := s.tracker.enter call
        some ⟨entered.1, some (i, call, entered.2)⟩
| .work i =>
    match s.inside with
    | none => none
    | some (j, call, critical) =>
        if j = i then
          (s.tracker.advance critical).map
            (fun p => ⟨p.1, some (j, call, p.2)⟩)
        else
          none
| .unlock i call answer =>
    if s.inside = some (i, call, .leaving answer) then
      some { s with inside := none }
    else
      none

/- A tracker before the first call. -/
def Initial (s : SharedTracker) : Prop :=
  s.tracker.buffer = [] ∧ s.inside = none

/- The calls in any order. -/
def machine : Machine SharedTracker TrackerEvent :=
  Machine.ofNext Initial next

end SharedTracker

------------------------------------------------------------
-- What Has Returned
------------------------------------------------------------

/- A call that is done, and what it gave back. -/
structure Returned where
  call : TrackerCall
  answer : Option (List String)
deriving DecidableEq

/-
  The calls that are done come in the order of their
  releases.
-/
def TrackerEvent.returned : TrackerEvent → Option Returned
| .lock _ _ => none
| .work _ => none
| .unlock _ call answer => some ⟨call, answer⟩

/- The calls of all threads in the order of the lock. -/
def returns (es : List TrackerEvent) : List Returned :=
  es.filterMap TrackerEvent.returned

/- What has been recorded since the last drained batch. -/
def pending (log : List Returned) : List String :=
  log.foldl
    (fun ids r =>
      r.answer.elim (ids ++ r.call.recorded) (fun _ => []))
    []

/- The batch has every pending id once, first ones first. -/
def Drains
    (before : List Returned)
    (r : Returned) : Prop :=
  ∃ batch, r.answer = some batch ∧
    Firsts.Of (pending before) batch

/- What a call returns, given the calls before it. -/
def Conserves
    (threshold : Nat)
    (before : List Returned)
    (r : Returned) : Prop :=
  match r.call with
  | .record _ => r.answer = none
  | .drain => Drains before r
  | .drainIfFull =>
      if (pending before).length < threshold then
        r.answer = none
      else
        Drains before r

/- A recorded id comes in a later batch or is pending. -/
def NoneLost (log : List Returned) : Prop :=
  ∀ before r after, log = before ++ r :: after →
    ∀ id ∈ r.call.recorded,
      (∃ later ∈ after, ∃ batch,
        later.answer = some batch ∧ id ∈ batch) ∨
      id ∈ pending log

/- After a drain nothing is pending. -/
theorem pending_snoc
    (log : List Returned)
    (r : Returned) :
    pending (log ++ [r]) =
      r.answer.elim (pending log ++ r.call.recorded)
        (fun _ => []) := by
  rw [pending, List.foldl_append]
  rfl

/- One more call that conserves loses nothing. -/
theorem noneLost_snoc
    {threshold : Nat} {log : List Returned} {r : Returned}
    (hLost : NoneLost log)
    (hConserves : Conserves threshold log r) :
    NoneLost (log ++ [r]) := by
  have hBatch :
      ∀ batch, r.answer = some batch →
        ∀ id ∈ pending log, id ∈ batch := by
    intro batch hAnswer id hId
    have hDrains : Drains log r := by
      unfold Conserves at hConserves
      split at hConserves
      · rw [hConserves] at hAnswer
        cases hAnswer
      · exact hConserves
      · split at hConserves
        · rw [hConserves] at hAnswer
          cases hAnswer
        · exact hConserves
    rcases hDrains with ⟨batch', hAnswer', hOf⟩
    rw [hAnswer] at hAnswer'
    rw [Option.some.inj hAnswer', hOf.mem_iff]
    exact hId
  have hRecorded : ∀ batch, r.answer = some batch →
      r.call.recorded = [] := by
    intro batch hAnswer
    cases hCall : r.call with
    | record ids =>
        rw [Conserves, hCall] at hConserves
        rw [show r.answer = none from hConserves] at hAnswer
        cases hAnswer
    | drain => rfl
    | drainIfFull => rfl
  intro before e after hSplit id hId
  rw [pending_snoc]
  rcases History.snoc_eq_split hSplit with
    ⟨rfl, rfl, rfl⟩ | ⟨rest, rfl, hLog⟩
  · cases hAnswer : e.answer with
    | none =>
        refine Or.inr ?_
        exact List.mem_append_right (pending before) hId
    | some batch =>
        rw [hRecorded batch hAnswer] at hId
        cases hId
  · rcases hLost before e rest hLog id hId with
      ⟨later, hLater, hMem⟩ | hPending
    · exact Or.inl
        ⟨later, List.mem_append_left [r] hLater, hMem⟩
    · cases hAnswer : r.answer with
      | none =>
          refine Or.inr ?_
          exact List.mem_append_left r.call.recorded hPending
      | some batch =>
          refine Or.inl ⟨r, ?_, batch, hAnswer, ?_⟩
          · exact List.mem_append_right rest
              (List.mem_singleton.mpr rfl)
          · exact hBatch batch hAnswer id hPending

------------------------------------------------------------
-- One Call at a Time
------------------------------------------------------------

namespace AccessTracker

/- What the rest of a critical section comes to. -/
def finish
    (tracker : AccessTracker) :
    Critical → Option (List String) × AccessTracker
| .recording rest => (none, tracker.record rest)
| .checking => tracker.drainIfFull
| .draining rest kept =>
    (some (rest.foldl Firsts.keep kept), tracker)
| .leaving answer => (answer, tracker)

variable {tracker tracker' : AccessTracker}
variable {critical critical' : Critical}

/- A drain in steps is a drain at once. -/
theorem finish_startDrain
    (tracker : AccessTracker) :
    tracker.startDrain.1.finish tracker.startDrain.2 =
      (some tracker.drain.1, tracker.drain.2) := by
  change
    (some (tracker.buffer.foldl Firsts.keep []), _) =
      (some tracker.buffer.eraseDups, _)
  rw [Firsts.foldl_keep]
  rfl

/- Any call in steps is the call at once. -/
theorem finish_enter
    (tracker : AccessTracker)
    (call : TrackerCall) :
    (tracker.enter call).1.finish (tracker.enter call).2 =
      tracker.call call := by
  cases call with
  | record ids => rfl
  | drain => exact finish_startDrain tracker
  | drainIfFull => rfl

/- A step inside does not change what the section comes to. -/
theorem finish_advance
    (hAdvance :
      tracker.advance critical = some (tracker', critical')) :
    tracker'.finish critical' = tracker.finish critical := by
  unfold advance at hAdvance
  split at hAdvance
  case h_1 =>
    cases hAdvance
    simp [finish, record]
  case h_2 id rest =>
    cases hAdvance
    simp [finish, record]
  case h_3 =>
    split at hAdvance
    case isTrue hFew =>
      cases hAdvance
      rw [finish, finish, drainIfFull, if_pos hFew]
    case isFalse hMany =>
      rw [finish, drainIfFull, if_neg hMany,
        ← finish_startDrain, Option.some.inj hAdvance]
  case h_4 kept =>
    cases hAdvance
    rfl
  case h_5 id rest kept =>
    cases hAdvance
    rfl
  case h_6 => cases hAdvance

/- The buffer after a call, by what the call returned. -/
theorem call_snd
    (tracker : AccessTracker)
    (call : TrackerCall) :
    (tracker.call call).2 =
      { tracker with
        buffer :=
          (tracker.call call).1.elim
            (tracker.buffer ++ call.recorded)
            (fun _ => []) } := by
  cases call with
  | record ids => rfl
  | drain => rfl
  | drainIfFull =>
      simp only [call, drainIfFull, TrackerCall.recorded]
      split
      · simp
      · rfl

end AccessTracker

------------------------------------------------------------
-- Runs
------------------------------------------------------------

namespace SharedTracker

/- The tracker as the calls that have returned leave it. -/
def settled
    (threshold : Nat)
    (log : List Returned) : AccessTracker :=
  ⟨pending log, threshold⟩

/- The calls are as if they were made one after another. -/
structure Sequential
    (threshold : Nat)
    (log : List Returned)
    (s : SharedTracker) : Prop where
  answers :
    History.Holds
      (fun before r =>
        r.answer = ((settled threshold before).call r.call).1)
      log
  free : s.inside = none → s.tracker = settled threshold log
  inside :
    ∀ i call critical, s.inside = some (i, call, critical) →
      s.tracker.finish critical =
        (settled threshold log).call call

variable {threshold : Nat} {es : List TrackerEvent}
variable {s t : SharedTracker} {e : TrackerEvent}

/- The log of a longer run. -/
theorem returns_snoc
    (es : List TrackerEvent)
    (e : TrackerEvent) :
    returns (es ++ [e]) = returns es ++ e.returned.toList := by
  rw [returns, List.filterMap_append]
  cases e <;> rfl

/- Steps under the lock are calls one after the other. -/
theorem Sequential.next
    (hSeq : Sequential threshold (returns es) s)
    (hNext : s.next e = some t) :
    Sequential threshold (returns (es ++ [e])) t := by
  rw [returns_snoc]
  cases e with
  | lock i call =>
      simp only [SharedTracker.next] at hNext
      split at hNext
      · cases hNext
      · rename_i hFree
        cases hNext
        rw [TrackerEvent.returned, Option.toList_none,
          List.append_nil]
        refine ⟨hSeq.answers, (fun h => by cases h), ?_⟩
        intro j call' critical hInside
        cases hInside
        rw [← hSeq.free hFree]
        exact AccessTracker.finish_enter s.tracker call
  | work i =>
      simp only [SharedTracker.next] at hNext
      split at hNext
      · cases hNext
      · rename_i j call critical hInside
        split at hNext
        · rw [Option.map_eq_some_iff] at hNext
          rcases hNext with ⟨p, hAdvance, rfl⟩
          rw [TrackerEvent.returned, Option.toList_none,
            List.append_nil]
          refine ⟨hSeq.answers, (fun h => by cases h), ?_⟩
          intro j' call' critical' hInside'
          cases hInside'
          rw [AccessTracker.finish_advance hAdvance]
          exact hSeq.inside j call critical hInside
        · cases hNext
  | unlock i call answer =>
      simp only [SharedTracker.next] at hNext
      split at hNext
      · rename_i hInside
        cases hNext
        have hCall :
            (answer, s.tracker) =
              (settled threshold (returns es)).call call :=
          hSeq.inside i call (.leaving answer) hInside
        have hAnswer := congrArg Prod.fst hCall
        have hTracker := congrArg Prod.snd hCall
        refine ⟨hSeq.answers.snoc hAnswer, ?_, ?_⟩
        · intro _
          rw [AccessTracker.call_snd, ← hAnswer] at hTracker
          unfold settled
          rw [TrackerEvent.returned, Option.toList_some,
            pending_snoc]
          exact hTracker
        · intro j call' critical hNone
          cases hNone
      · cases hNext

/- Every run is sequential, in the order of releases. -/
theorem sequential_of_run
    (hStart : Initial s)
    (hRun : machine.Run s es t) :
    Sequential s.tracker.flushThreshold (returns es) t := by
  apply Machine.Run.history_invariant
    (I := fun es t =>
      Sequential s.tracker.flushThreshold (returns es) t)
    (fun es s e t hSeq hStep => hSeq.next hStep) hRun
  refine ⟨History.Holds.nil, ?_, ?_⟩
  · intro _
    unfold settled
    rw [show pending (returns []) = s.tracker.buffer from
      hStart.1.symm]
  · intro i call critical hInside
    rw [hStart.2] at hInside
    cases hInside

end SharedTracker

/- A call on its own conserves what is pending. -/
theorem conserves_of_call
    {threshold : Nat} {before : List Returned} {r : Returned}
    (hAnswer :
      r.answer =
        ((SharedTracker.settled threshold before).call
          r.call).1) :
    Conserves threshold before r := by
  unfold Conserves
  cases hCall : r.call with
  | record ids =>
      rw [hCall] at hAnswer
      exact hAnswer
  | drain =>
      rw [hCall] at hAnswer
      exact ⟨_, hAnswer, Firsts.of_eraseDups _⟩
  | drainIfFull =>
      rw [hCall, AccessTracker.call,
        AccessTracker.drainIfFull,
        SharedTracker.settled] at hAnswer
      dsimp only at hAnswer ⊢
      by_cases hFew : (pending before).length < threshold
      · rw [if_pos hFew]
        rw [if_pos hFew] at hAnswer
        exact hAnswer
      · rw [if_neg hFew]
        rw [if_neg hFew] at hAnswer
        exact ⟨_, hAnswer, Firsts.of_eraseDups _⟩

/- Calls that conserve lose nothing, however many. -/
theorem noneLost_of_holds
    {threshold : Nat} {log : List Returned}
    (hHolds : History.Holds (Conserves threshold) log) :
    NoneLost log := by
  induction log using List.reverseRecOn with
  | nil =>
      intro before r after h
      simp at h
  | append_singleton log r ih =>
      refine noneLost_snoc (ih ?_) (hHolds log r [] rfl)
      intro before e after hLog
      apply hHolds before e (after ++ [r])
      rw [hLog]
      simp

/-
  Whatever the threads do, a drain has every id recorded
  since the one before exactly once, in the order of its
  first record, and no recorded id is lost; and an update of
  the accesses of distinct ids counts one more for each row
  that is named, and leaves all others as they were.
-/
theorem accesses_conserved
    {start s : SharedTracker} {es : List TrackerEvent}
    {db db' : Sqlite} {ids : List String} {now : DateTime}
    (hStart : start.Initial)
    (hRun : SharedTracker.machine.Run start es s)
    (hDistinct : ids.Nodup)
    (hUpdate : db.executeLastAccessed ids now = .ok db') :
    (History.Holds (Conserves start.tracker.flushThreshold)
        (returns es) ∧
      NoneLost (returns es) ∧
      (s.inside = none →
        s.tracker.buffer = pending (returns es))) ∧
    db' =
      { db with
        memories :=
          db.memories.map
            (fun r =>
              if r.id ∈ ids then
                { r with
                  lastAccessed := now
                  accessCount := r.accessCount + 1 }
              else
                r) } := by
  have hSeq := SharedTracker.sequential_of_run hStart hRun
  have hConserves :
      History.Holds (Conserves start.tracker.flushThreshold)
        (returns es) := by
    intro before r after hSplit
    exact conserves_of_call (hSeq.answers before r after hSplit)
  refine ⟨⟨hConserves, noneLost_of_holds hConserves, ?_⟩, ?_⟩
  · intro hFree
    rw [hSeq.free hFree]
    rfl
  · rw [Sqlite.executeLastAccessed_eq] at hUpdate
    have hRows :=
      Sqlite.memories_updateLastAccessed db ids now hDistinct
    calc db' = db.updateLastAccessed ids now :=
          (Except.ok.inj hUpdate).symm
      _ = { db with
            memories :=
              (db.updateLastAccessed ids now).memories } := rfl
      _ = _ := by
          rw [hRows]
          rfl

------------------------------------------------------------
-- Two Threads
------------------------------------------------------------

/- A row of the example. -/
private def readRow (id : String) : MemoryRow where
  id := id
  «namespace» := "default"
  memoryType := .episodic
  content := some "note"
  subject := none
  predicate := none
  object := none
  confidence := 1
  source := none
  context := none
  createdAt := 0
  updatedAt := 0
  tValid := none
  tInvalid := none
  lastAccessed := 0
  lastValidated := none
  accessCount := 0
  normalizedPredicate := none

/- Three rows are read. -/
private def readRows : Sqlite where
  memories := [readRow "a", readRow "b", readRow "c"]
  entities := []
  entityAliases := []
  memoryEntities := []
  pendingOps := []
  completedOps := []

/- Their ids are recorded, then drained. -/
private def recordThenDrain : List TrackerEvent :=
  [.lock 0 (.record ["b", "a", "b"]), .work 0, .work 0,
    .work 0, .work 0, .unlock 0 (.record ["b", "a", "b"]) none,
    .lock 1 .drainIfFull, .work 1, .work 1, .work 1, .work 1,
    .work 1, .unlock 1 .drainIfFull (some ["b", "a"])]

/- One thread records, the other one drains what it has. -/
theorem accesses_conserved_two_threads :
    NoneLost (returns recordThenDrain) ∧
      (readRows.updateLastAccessed ["b", "a"] 7).memories.map
        (fun r => r.accessCount) = [1, 1, 0] := by
  have hEnd :
      (recordThenDrain.foldlM SharedTracker.next
        ⟨⟨[], 3⟩, none⟩).any (fun s => s.inside.isNone) := by
    decide
  rcases Machine.Run.of_any SharedTracker.Initial
    ⟨⟨[], 3⟩, none⟩ recordThenDrain _ hEnd with ⟨s, hRun, _⟩
  have hConserved :=
    accesses_conserved ⟨rfl, rfl⟩ hRun
      (show ["b", "a"].Nodup by decide)
      (Sqlite.executeLastAccessed_eq readRows ["b", "a"] 7)
  refine ⟨hConserved.1.2.1, ?_⟩
  rw [hConserved.2]
  decide

end Core

end Ferrex
