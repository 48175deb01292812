import Mathlib.Logic.Function.Basic
import Ferrex.Lib.Transition
import Ferrex.Core.Forget

/-
  The service as a transition system: any number of store
  and forget calls whose stages interleave, errors at any
  stage, crashes between any two steps, and the recovery
  that follows each of them.

  Main declarations:
    * `System`, `Event`, `System.next`
    * `machine`, `System.after`
    * `Move` and `System.next_eq_some`
-/

------------------------------------------------------------
-- Calls and Systems
------------------------------------------------------------

namespace Ferrex

namespace Core

open Store

/- A call: what was asked for, and the stage it is at. -/
inductive Task (Vec F : Type) where
| store (req : StoreRequest) (stage : StoreStage Vec F)
| forget (ids : List String) (stage : ForgetStage F)

/- A call that a crash has cut off is lost. -/
structure Call (Vec F : Type) where
  task : Task Vec F
  lost : Bool

/- The process is down, starting up, or taking calls. -/
inductive Mode where
| down
| recovering (stage : RecoveryStage)
| up

/-
  The world, every call there ever was, and the mode of the
  process.  `committed` is history: the namespace and id of
  every memory that is or was a row.
-/
structure System (Vec F : Type) where
  world : World Vec
  calls : Nat → Option (Call Vec F)
  mode : Mode
  committed : List (String × String)

/- The recovery has run to completion. -/
def Mode.recovered : Mode → Bool
| .recovering (.done _) => true
| _ => false

inductive Event (F : Type) where
| tick (d : Nat)
| store (i : Nat) (req : StoreRequest)
| forget (i : Nat) (ids : List String)
| step (i : Nat)
| fail (i : Nat) (e : CoreError F)
| crash
| recover

variable {Vec F : Type}

namespace Task

def calls : Task Vec F → Bool
| .store _ stage => stage.calls
| .forget _ stage => stage.calls

/- A store call that has come to its result. -/
def stored : Task Vec F → Bool
| .store _ (.done _) => true
| _ => false

theorem stored_iff
    {task : Task Vec F} :
    task.stored = true ↔
      ∃ req result, task = .store req (.done result) := by
  constructor
  · intro h
    unfold stored at h
    split at h
    · exact ⟨_, _, rfl⟩
    · cases h
  · rintro ⟨req, result, rfl⟩
    rfl

/- A call that has come to its result. -/
def finished : Task Vec F → Bool
| .store _ (.done _) => true
| .forget _ (.done _) => true
| _ => false

/- The memory that the next step commits, if it is to. -/
def committing : Task Vec F → Option (StoreContext Vec F)
| .store _ (.commit ctx _ _) => some ctx
| _ => none

/- What a step from the first task to the second commits. -/
def commits
    (task next : Task Vec F) : List (String × String) :=
  match task.committing, next with
  | some ctx, .store _ (.done (.ok _)) =>
      [(ctx.namespace, ctx.id)]
  | _, _ => []

end Task

namespace System

/- The call, as long as the process that took it runs. -/
def live
    (s : System Vec F)
    (i : Nat) : Option (Task Vec F) :=
  match s.mode, s.calls i with
  | .up, some ⟨task, false⟩ => some task
  | _, _ => none

def setTask
    (s : System Vec F)
    (i : Nat)
    (w : World Vec)
    (task : Task Vec F) : System Vec F :=
  { s with
    world := w
    calls := Function.update s.calls i (some ⟨task, false⟩) }

end System

------------------------------------------------------------
-- Steps
------------------------------------------------------------

variable [LE F] [LT F] [DecidableLE F] [DecidableLT F]

namespace Task

def step
    (env : Env Vec F)
    (service : MemoryService F)
    (w : World Vec) : Task Vec F → World Vec × Task Vec F
| .store req stage =>
    let next := stage.step env service w
    (next.1, .store req next.2)
| .forget ids stage =>
    let next := stage.step env w
    (next.1, .forget ids next.2)

def fail (e : CoreError F) : Task Vec F → Task Vec F
| .store req _ => .store req (.done (.error e))
| .forget ids _ => .forget ids (.done (.error e))

end Task

namespace System

/-
  The state after an event, when it can happen.  A crash
  loses every call; a recovery that has nothing left to do
  brings the process up.
-/
def next
    (env : Env Vec F)
    (service : MemoryService F)
    (s : System Vec F) : Event F → Option (System Vec F)
| .tick d =>
    some { s with
      world := { s.world with clock := s.world.clock + d } }
| .store i req =>
    match s.mode, s.calls i with
    | .up, none =>
        some (s.setTask i s.world
          (.store req (.ensure req)))
    | _, _ => none
| .forget i ids =>
    match s.mode, s.calls i with
    | .up, none =>
        some (s.setTask i s.world
          (.forget ids (.start env ids)))
    | _, _ => none
| .step i =>
    match s.live i with
    | none => none
    | some task =>
        let next := task.step env service s.world
        some { s.setTask i next.1 next.2 with
          committed := s.committed ++ task.commits next.2 }
| .fail i e =>
    match s.live i with
    | none => none
    | some task =>
        if task.calls && e.external then
          some (s.setTask i s.world (task.fail e))
        else
          none
| .crash =>
    some { s with
      calls := fun i =>
        (s.calls i).map (fun c => { c with lost := true })
      mode := .down }
| .recover =>
    match s.mode with
    | .down => some { s with mode := .recovering .list }
    | .up => none
    | .recovering (.done _) => some { s with mode := .up }
    | .recovering stage =>
        match stage.step env s.world with
        | .error _ => none
        | .ok (w, stage) =>
            some { s with
              world := w
              mode := .recovering stage }

end System

/- The service, from a state in which no call has begun. -/
def machine
    (env : Env Vec F)
    (service : MemoryService F) :
    Machine (System Vec F) (Event F) where
  initial s := s.mode = .up ∧ ∀ i, s.calls i = none
  step s e t := s.next env service e = some t

/- The state after a sequence of events, if all can happen. -/
def System.after
    (env : Env Vec F)
    (service : MemoryService F) :
    System Vec F → List (Event F) → Option (System Vec F)
| s, [] => some s
| s, e :: es =>
    match s.next env service e with
    | none => none
    | some t => System.after env service t es

theorem System.run_of_after
    {env : Env Vec F} {service : MemoryService F}
    {s t : System Vec F} {es : List (Event F)}
    (h : s.after env service es = some t) :
    (machine env service).Run s es t := by
  induction es generalizing s with
  | nil =>
      cases h
      exact .nil
  | cons e es ih =>
      rw [System.after] at h
      split at h
      · cases h
      · rename_i s' hNext
        exact Machine.Run.cons hNext (ih h)

/- A run to a state that passes a test. -/
theorem System.run_of_any
    (env : Env Vec F)
    (service : MemoryService F)
    (s : System Vec F)
    (es : List (Event F))
    (test : System Vec F → Bool)
    (h : (s.after env service es).any test = true) :
    ∃ t, (machine env service).Run s es t ∧
      test t = true := by
  cases hAfter : s.after env service es with
  | none => simp [hAfter] at h
  | some t =>
      rw [hAfter] at h
      exact ⟨t, run_of_after hAfter, h⟩

theorem System.after_append
    {env : Env Vec F} {service : MemoryService F}
    {s : System Vec F} {es fs : List (Event F)} :
    s.after env service (es ++ fs) =
      (s.after env service es).bind
        (fun t => t.after env service fs) := by
  induction es generalizing s with
  | nil => rfl
  | cons e es ih =>
      rw [List.cons_append, System.after, System.after]
      cases s.next env service e with
      | none => rfl
      | some t => exact ih

/- The same for events that have to pass a check. -/
def System.afterWhen
    (env : Env Vec F)
    (service : MemoryService F)
    (check : System Vec F → Event F → Bool) :
    System Vec F → List (Event F) → Option (System Vec F)
| s, [] => some s
| s, e :: es =>
    if check s e then
      match s.next env service e with
      | none => none
      | some t => System.afterWhen env service check t es
    else
      none

/- A run of events that meet a condition, as checked. -/
theorem System.restrict_of_afterWhen
    {env : Env Vec F} {service : MemoryService F}
    {check : System Vec F → Event F → Bool}
    {guard : System Vec F → Event F → Prop}
    {s t : System Vec F} {es : List (Event F)}
    (hCheck : ∀ s e, check s e = true → guard s e)
    (h : s.afterWhen env service check es = some t) :
    ((machine env service).restrict guard).Run s es t := by
  induction es generalizing s with
  | nil =>
      cases h
      exact .nil
  | cons e es ih =>
      rw [System.afterWhen] at h
      split at h
      · rename_i hPass
        split at h
        · cases h
        · rename_i s' hNext
          exact Machine.Run.cons ⟨hNext, hCheck s e hPass⟩
            (ih h)
      · cases h

/- Such a run to a state that passes a test. -/
theorem System.restrict_of_any
    (env : Env Vec F)
    (service : MemoryService F)
    {check : System Vec F → Event F → Bool}
    {guard : System Vec F → Event F → Prop}
    (s : System Vec F)
    (es : List (Event F))
    (test : System Vec F → Bool)
    (hCheck : ∀ s e, check s e = true → guard s e)
    (h :
      (s.afterWhen env service check es).any test = true) :
    ∃ t, ((machine env service).restrict guard).Run s es t ∧
      test t = true := by
  rcases (Option.any_eq_true _ _).mp h with ⟨t, hAfter, hTest⟩
  exact ⟨t, restrict_of_afterWhen hCheck hAfter, hTest⟩

/- Both stores empty, and no call. -/
def System.empty : System Vec F where
  world :=
    { db := ⟨[], [], [], [], [], []⟩
      qdrant := ⟨fun _ => []⟩
      clock := 0
      nextUuid := 0 }
  calls _ := none
  mode := .up
  committed := []

/- A request with nothing but its content. -/
def StoreRequest.note (content : String) : StoreRequest where
  content := some content
  memoryType := none
  subject := none
  predicate := none
  object := none
  confidence := none
  source := none
  context := none
  entities := []
  «namespace» := none
  supersedes := none

/- A request with a complete triple. -/
def StoreRequest.fact
    (subject predicate object : String) : StoreRequest :=
  { StoreRequest.note "" with
    content := none
    subject := some subject
    predicate := some predicate
    object := some object }

/- The default configuration, without predicate groups. -/
def MemoryService.plain : MemoryService Rat where
  config :=
    { «namespace» := "default"
      deduplication := ⟨95 / 100⟩
      conflict := ⟨95 / 100, 50 / 100⟩ }
  normalizers := []
  defaultNormalizer := ⟨[], []⟩

------------------------------------------------------------
-- Live Calls
------------------------------------------------------------

namespace System

variable {s t : System Vec F} {i j : Nat}
variable {task : Task Vec F} {w : World Vec}

omit [LE F] [LT F] [DecidableLE F] [DecidableLT F]

theorem live_eq_some
    (h : s.live i = some task) :
    s.mode = .up ∧ s.calls i = some ⟨task, false⟩ := by
  unfold live at h
  split at h
  · rename_i hMode hCall
    cases h
    exact ⟨hMode, hCall⟩
  · cases h

theorem live_of_not_up
    (h : s.mode ≠ .up) :
    s.live i = none := by
  unfold live
  split
  · rename_i hMode _
    exact absurd hMode h
  · rfl

@[simp] theorem setTask_world :
    (s.setTask i w task).world = w :=
  rfl

@[simp] theorem setTask_mode :
    (s.setTask i w task).mode = s.mode :=
  rfl

@[simp] theorem setTask_committed :
    (s.setTask i w task).committed = s.committed :=
  rfl

theorem live_setTask
    (hMode : s.mode = .up) :
    (s.setTask i w task).live j =
      if j = i then some task else s.live j := by
  unfold live setTask
  by_cases hEq : j = i
  · subst hEq
    simp [hMode]
  · simp [hMode, hEq]

theorem live_setTask_committed
    {committed : List (String × String)}
    (hMode : s.mode = .up) :
    System.live
        { s.setTask i w task with committed := committed }
        j =
      if j = i then some task else s.live j :=
  live_setTask (w := w) hMode

theorem calls_setTask :
    (s.setTask i w task).calls j =
      if j = i then some ⟨task, false⟩ else s.calls j := by
  by_cases hEq : j = i
  · subst hEq
    simp [setTask]
  · simp [setTask, hEq]

end System

------------------------------------------------------------
-- Moves
------------------------------------------------------------

/- The ways in which the system goes from state to state. -/
inductive Move
    (env : Env Vec F)
    (service : MemoryService F)
    (s : System Vec F) : Event F → System Vec F → Prop
| tick (d : Nat) :
    Move env service s (.tick d)
      { s with
        world := { s.world with clock := s.world.clock + d } }
| store (i : Nat) (req : StoreRequest)
    (hMode : s.mode = .up)
    (hNone : s.calls i = none) :
    Move env service s (.store i req)
      (s.setTask i s.world (.store req (.ensure req)))
| forget (i : Nat) (ids : List String)
    (hMode : s.mode = .up)
    (hNone : s.calls i = none) :
    Move env service s (.forget i ids)
      (s.setTask i s.world
        (.forget ids (.start env ids)))
| step (i : Nat) (task : Task Vec F)
    (hLive : s.live i = some task) :
    Move env service s (.step i)
      { s.setTask i (task.step env service s.world).1
          (task.step env service s.world).2 with
        committed :=
          s.committed ++
            task.commits (task.step env service s.world).2 }
| fail (i : Nat) (task : Task Vec F) (e : CoreError F)
    (hLive : s.live i = some task)
    (hCalls : task.calls = true) :
    Move env service s (.fail i e)
      (s.setTask i s.world (task.fail e))
| crash :
    Move env service s .crash
      { s with
        calls := fun i =>
          (s.calls i).map (fun c => { c with lost := true })
        mode := .down }
| restart
    (hMode : s.mode = .down) :
    Move env service s .recover
      { s with mode := .recovering .list }
| recover (stage stage' : RecoveryStage) (w : World Vec)
    (hMode : s.mode = .recovering stage)
    (hStep : stage.step env s.world = .ok (w, stage')) :
    Move env service s .recover
      { s with world := w, mode := .recovering stage' }
| recovered (report : RecoveryReport)
    (hMode : s.mode = .recovering (.done report)) :
    Move env service s .recover { s with mode := .up }

theorem System.next_eq_some
    {env : Env Vec F} {service : MemoryService F}
    {s t : System Vec F} {e : Event F}
    (h : s.next env service e = some t) :
    Move env service s e t := by
  cases e with
  | tick d =>
      cases h
      exact .tick d
  | store i req =>
      simp only [System.next] at h
      split at h
      · rename_i hMode hNone
        cases h
        exact .store i req hMode hNone
      · cases h
  | forget i ids =>
      simp only [System.next] at h
      split at h
      · rename_i hMode hNone
        cases h
        exact .forget i ids hMode hNone
      · cases h
  | step i =>
      simp only [System.next] at h
      split at h
      · cases h
      · rename_i task hLive
        cases h
        exact .step i task hLive
  | fail i e =>
      simp only [System.next] at h
      split at h
      · cases h
      · rename_i task hLive
        split at h
        · rename_i hCalls
          cases h
          exact .fail i task e hLive
            (by simp_all)
        · cases h
  | crash =>
      cases h
      exact .crash
  | recover =>
      simp only [System.next] at h
      split at h
      · rename_i hMode
        cases h
        exact .restart hMode
      · cases h
      · rename_i report hMode
        cases h
        exact .recovered report hMode
      · rename_i stage _ hMode
        split at h
        · cases h
        · rename_i w stage' hStep
          cases h
          exact .recover stage stage' w hMode hStep

/- The call that an event begins. -/
def Event.begins : Event F → Option Nat
| .store i _ => some i
| .forget i _ => some i
| _ => none

/- There is no call that no event of a run has begun. -/
theorem System.calls_run
    {env : Env Vec F} {service : MemoryService F}
    {s t : System Vec F} {es : List (Event F)} {i : Nat}
    (hRun : (machine env service).Run s es t)
    (hOthers : ∀ e ∈ es, e.begins ≠ some i)
    (hNone : s.calls i = none) :
    t.calls i = none := by
  induction hRun with
  | nil => exact hNone
  | @snoc t u es e _ hNext ih =>
      have hOld : t.calls i = none :=
        ih (fun e he => hOthers e (by simp [he]))
      have hEvent := hOthers e (by simp)
      have hSet :
          ∀ {j : Nat} {w : World Vec} {task : Task Vec F},
            i ≠ j → (t.setTask j w task).calls i = none :=
        fun hNe => by rw [calls_setTask, if_neg hNe, hOld]
      have hLiveNe :
          ∀ {j : Nat} {task : Task Vec F},
            t.live j = some task → i ≠ j := by
        rintro j task hLive rfl
        have hCall := (live_eq_some hLive).2
        rw [hOld] at hCall
        cases hCall
      cases System.next_eq_some hNext with
      | store j req _ _ =>
          exact hSet fun h => hEvent (h ▸ rfl)
      | forget j ids _ _ =>
          exact hSet fun h => hEvent (h ▸ rfl)
      | step j task hLive =>
          rw [← hSet (w := t.world) (hLiveNe hLive)]
          rfl
      | fail j task _ hLive _ => exact hSet (hLiveNe hLive)
      | crash => simp [hOld]
      | _ => exact hOld

end Core

end Ferrex
