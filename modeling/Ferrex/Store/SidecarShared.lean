import Ferrex.Store.SidecarFiles

/-
  The sidecar that the processes of one directory share: when
  the checks of a live process tell qdrant from others, all
  that have a live sidecar have the same one, at one port.

  Main declarations:
    * `Directory.Truthful`
    * `Actor.Fair`, `Directory.Shared`
    * `Directory.Shared.next`, `sidecar_shared`
-/

------------------------------------------------------------
-- Sidecars in Use
------------------------------------------------------------

namespace Ferrex

namespace Store

namespace Sidecar

namespace Stage

/- The child of a starter that is about to record it. -/
def child : Stage → Option Nat
| .writePid child => some child
| .writePort child => some child
| _ => none

/- The process that one outside takes, or probes, for qdrant. -/
def sidecar : Stage → Option Nat
| .probe existing _ => some existing
| .health pid _ => some pid
| .running pid _ => some pid
| _ => none

/- Nothing is taken for qdrant, and nothing to be recorded. -/
def Plain (stage : Stage) : Prop :=
  stage.child = none ∧ stage.sidecar = none

theorem locked_of_child
    {stage : Stage} {pid : Nat}
    (h : stage.child = some pid) :
    stage.locked = true ∧ stage.sidecar = none := by
  cases stage <;> first | exact ⟨rfl, rfl⟩ | cases h

end Stage

namespace Directory

/-
  A live process that passes a check is qdrant, one that fails
  the probe is not, and what is spawned is.  A starter can
  read the PID file.
-/
def Truthful
    (qdrant : Nat → Bool)
    (s : Directory) : Event → Prop
| .act i o =>
    ∀ a, s.actors i = some a →
      match a.stage, o with
      | .resolve, .failed _ => False
      | .reread _, .failed _ => False
      | .inspect existing, .ok =>
          s.alive existing = true → qdrant existing = true
      | .probe existing _, .ok =>
          s.alive existing = true → qdrant existing = true
      | .probe existing _, .failed _ =>
          s.alive existing = false ∨ qdrant existing = false
      | .spawn, .ok => qdrant s.nextPid = true
      | _, _ => True
| _ => True

/- A qdrant that is alive is the one that the file names. -/
def Names
    (qdrant : Nat → Bool)
    (s : Directory)
    (pid : Nat) : Prop :=
  s.alive pid = true → qdrant pid = true →
    s.readPid = some pid

/-
  The sidecar of a process with a port: if it is alive, it is
  qdrant and named, and no other port is recorded for it.
-/
structure Serves
    (qdrant : Nat → Bool)
    (s : Directory)
    (port pid : Nat) : Prop where
  named :
    s.alive pid = true →
      qdrant pid = true ∧ s.readPid = some pid
  port : ∀ p, s.portFile = some (pid, p) → p = port

/- No process outside has it for its sidecar. -/
def Hidden (s : Directory) (pid : Nat) : Prop :=
  ∀ i a, s.actors i = some a → a.stage.sidecar ≠ some pid

end Directory

namespace Actor

/-
  A process that was judged is dead, or not qdrant, and a
  read that is to be acted on did not fail.
-/
def Just
    (qdrant : Nat → Bool)
    (s : Directory)
    (a : Actor) : Prop :=
  (∀ pid time, a.judged = some (pid, time) →
    pid < s.nextPid ∧
      (s.alive pid = false ∨ qdrant pid = false)) ∧
    a.found ≠ some .unreadable

def Fair
    (qdrant : Nat → Bool)
    (s : Directory)
    (a : Actor) : Prop :=
  a.Just qdrant s ∧
    match a.stage with
    | .probe existing recorded =>
        s.Names qdrant existing ∧
          ∀ p, s.portFile = some (existing, p) →
            recorded = some p
    | .writePid child => qdrant child = true
    | .writePort child =>
        qdrant child = true ∧ s.Names qdrant child
    | .health pid _ => s.Serves qdrant a.port pid
    | .running pid _ => s.Serves qdrant a.port pid
    | _ => True

end Actor

namespace Directory

structure Shared
    (qdrant : Nat → Bool)
    (s : Directory) : Prop where
  inv : s.Inv
  fair : ∀ i a, s.actors i = some a → a.Fair qdrant s
  fresh :
    ∀ i a pid, s.actors i = some a →
      a.stage.child = some pid → s.Hidden pid

------------------------------------------------------------
-- Steps of Others
------------------------------------------------------------

/-
  What a step leaves to all processes: dead ones stay dead, a
  live qdrant stays named, and a port is recorded only for a
  child that nobody has for a sidecar yet.
-/
structure Calm
    (qdrant : Nat → Bool)
    (s t : Directory) : Prop where
  pids : s.nextPid ≤ t.nextPid
  dead :
    ∀ pid, pid < s.nextPid → s.alive pid = false →
      t.alive pid = false
  names :
    ∀ pid, s.alive pid = true → qdrant pid = true →
      s.readPid = some pid → t.readPid = some pid
  ports :
    ∀ pid p, t.portFile = some (pid, p) →
      s.portFile = some (pid, p) ∨ s.Hidden pid

section Calm

variable {qdrant : Nat → Bool} {s t : Directory}
variable {i : Nat} {a a' : Actor} {pid : Nat}

theorem Calm.alive
    (hCalm : s.Calm qdrant t)
    (hPid : pid < s.nextPid)
    (hAlive : t.alive pid = true) :
    s.alive pid = true := by
  cases hBefore : s.alive pid with
  | true => rfl
  | false =>
      rw [hCalm.dead pid hPid hBefore] at hAlive
      cases hAlive

theorem Names.calm
    (hNames : s.Names qdrant pid)
    (hCalm : s.Calm qdrant t)
    (hPid : pid < s.nextPid) :
    t.Names qdrant pid := by
  intro hAlive hQdrant
  have hBefore := hCalm.alive hPid hAlive
  exact hCalm.names pid hBefore hQdrant
    (hNames hBefore hQdrant)

theorem Serves.calm
    {port : Nat}
    (hServes : s.Serves qdrant port pid)
    (hCalm : s.Calm qdrant t)
    (hPid : pid < s.nextPid)
    (hShown : ¬ s.Hidden pid) :
    t.Serves qdrant port pid := by
  constructor
  · intro hAlive
    have hBefore := hCalm.alive hPid hAlive
    rcases hServes.named hBefore with ⟨hQdrant, hRead⟩
    exact ⟨hQdrant, hCalm.names pid hBefore hQdrant hRead⟩
  · intro p hPort
    rcases hCalm.ports pid p hPort with hOld | hHidden
    · exact hServes.port p hOld
    · exact absurd hHidden hShown

theorem Just.calm
    (hJust : a.Just qdrant s)
    (hCalm : s.Calm qdrant t) :
    a.Just qdrant t := by
  refine ⟨fun pid time hJudged => ?_, hJust.2⟩
  rcases hJust.1 pid time hJudged with ⟨hPid, hOther⟩
  exact ⟨Nat.lt_of_lt_of_le hPid hCalm.pids,
    hOther.imp_left (hCalm.dead pid hPid)⟩

theorem not_hidden
    (hActor : s.actors i = some a)
    (hSidecar : a.stage.sidecar = some pid) :
    ¬ s.Hidden pid :=
  fun h => h i a hActor hSidecar

theorem Shared.fair_calm
    (hShared : s.Shared qdrant)
    (hActor : s.actors i = some a)
    (hCalm : s.Calm qdrant t) :
    a.Fair qdrant t := by
  have hFair := hShared.fair i a hActor
  have hSound := hShared.inv.sound i a hActor
  refine ⟨Just.calm hFair.1 hCalm, ?_⟩
  have hRest := hFair.2
  unfold Actor.Sound at hSound
  cases hStage : a.stage <;> rw [hStage] at hRest hSound
  case probe existing recorded =>
    refine ⟨hRest.1.calm hCalm hSound.1, fun p hPort => ?_⟩
    rcases hCalm.ports existing p hPort with hOld | hHidden
    · exact hRest.2 p hOld
    · exact absurd hHidden
        (not_hidden hActor (by rw [hStage]; rfl))
  case writePid child => exact hRest
  case writePort child =>
    exact ⟨hRest.1, hRest.2.calm hCalm hSound⟩
  case health pid ours =>
    exact hRest.calm hCalm hSound
      (not_hidden hActor (by rw [hStage]; rfl))
  case running pid ours =>
    exact hRest.calm hCalm hSound
      (not_hidden hActor (by rw [hStage]; rfl))
  all_goals exact True.intro

/- A step of one process, in whatever way it comes out. -/
theorem Shared.put
    (hShared : s.Shared qdrant)
    (hInv : t.Inv)
    (hActors :
      t.actors = Function.update s.actors i (some a'))
    (hCalm : s.Calm qdrant t)
    (hFair : a'.Fair qdrant t)
    (hChild :
      ∀ pid, a'.stage.child = some pid → s.Hidden pid)
    (hSidecar :
      ∀ pid, a'.stage.sidecar = some pid →
        ∀ j b, j ≠ i → s.actors j = some b →
          b.stage.child ≠ some pid) :
    t.Shared qdrant := by
  have hCases :
      ∀ j b, t.actors j = some b →
        (j = i ∧ b = a') ∨ (j ≠ i ∧ s.actors j = some b) := by
    intro j b hSome
    rw [hActors, Function.update_apply] at hSome
    split at hSome
    · rename_i hEq
      exact Or.inl ⟨hEq, (Option.some.inj hSome).symm⟩
    · rename_i hNe
      exact Or.inr ⟨hNe, hSome⟩
  refine ⟨hInv, fun j b hSome => ?_, ?_⟩
  · rcases hCases j b hSome with ⟨_, rfl⟩ | ⟨_, hOld⟩
    · exact hFair
    · exact hShared.fair_calm hOld hCalm
  · intro j b pid hSome hPid k c hOther hShown
    rcases hCases j b hSome with ⟨_, rfl⟩ | ⟨hNe, hOld⟩
    · rcases hCases k c hOther with ⟨_, rfl⟩ | ⟨_, hOld'⟩
      · rw [(Stage.locked_of_child hPid).2] at hShown
        cases hShown
      · exact hChild pid hPid k c hOld' hShown
    · rcases hCases k c hOther with ⟨_, rfl⟩ | ⟨_, hOld'⟩
      · exact hSidecar pid hShown j b hNe hOld hPid
      · exact hShared.fresh j b pid hOld hPid k c hOld' hShown

/- A step to a stage where nothing is taken for qdrant. -/
theorem Shared.plain
    (hShared : s.Shared qdrant)
    (hInv : t.Inv)
    (hActors :
      t.actors = Function.update s.actors i (some a'))
    (hCalm : s.Calm qdrant t)
    (hJust : a'.Just qdrant s)
    (hPlain : a'.stage.Plain) :
    t.Shared qdrant := by
  refine hShared.put hInv hActors hCalm
    ⟨Just.calm hJust hCalm, ?_⟩ (fun pid h => ?_)
    (fun pid h => ?_)
  · rcases hPlain with ⟨hChild, hSidecar⟩
    cases hStage : a'.stage <;> rw [hStage] at hChild hSidecar
    case writePid | writePort => cases hChild
    case probe | health | running => cases hSidecar
    all_goals exact True.intro
  · rw [hPlain.1] at h
    cases h
  · rw [hPlain.2] at h
    cases h

/- A step that leaves all processes and the PID file alone. -/
theorem calm_move
    {lock : Option Nat} {portFile : Option (Nat × Nat)}
    (hPort : portFile = s.portFile ∨ portFile = none) :
    s.Calm qdrant ({ s with
      lock := lock, portFile := portFile }.put i a') := by
  refine ⟨Nat.le_refl _, fun _ _ h => h, fun _ _ _ h => h,
    fun pid p h => ?_⟩
  change portFile = _ at h
  rcases hPort with hSame | hNone
  · exact Or.inl (hSame ▸ h)
  · rw [hNone] at h
    cases h

theorem Shared.move
    {lock : Option Nat} {portFile : Option (Nat × Nat)}
    (hShared : s.Shared qdrant)
    (hInv :
      ({ s with lock := lock, portFile := portFile }.put i
        a').Inv)
    (hPort : portFile = s.portFile ∨ portFile = none)
    (hJust : a'.Just qdrant s)
    (hPlain : a'.stage.Plain) :
    ({ s with lock := lock, portFile := portFile }.put i
      a').Shared qdrant :=
  hShared.plain hInv rfl (calm_move hPort) hJust hPlain

/- What a warrant is for is no qdrant that is alive. -/
theorem Shared.unnamed
    (hShared : s.Shared qdrant)
    (hActor : s.actors i = some a)
    (hWarranted : a.Warranted s)
    (hRead : s.readPid = some pid)
    (hAlive : s.alive pid = true) :
    qdrant pid = false := by
  rcases hWarranted with
    hError | ⟨found, _, hNames, hGrounds⟩
  · exact absurd hError (hShared.fair i a hActor).1.2
  rcases hNames with hNone | hFound
  · rw [hNone] at hRead
    cases hRead
  · rw [hFound] at hRead
    rcases hGrounds pid hRead with ⟨_, hDead | hJudged⟩
    · rw [hDead] at hAlive
      cases hAlive
    · rcases hJudged with ⟨_, _, time, hAt, _⟩
      rcases ((hShared.fair i a hActor).1.1 pid time hAt).2 with
        hDead | hOther
      · rw [hDead] at hAlive
        cases hAlive
      · exact hOther

/- With a warrant the file may be given any text. -/
theorem Shared.calm_pidFile
    {lock : Option Nat} {pidFile : Option (Option Nat)}
    {records : List (Nat × Nat)}
    (hShared : s.Shared qdrant)
    (hActor : s.actors i = some a)
    (hWarranted : a.Warranted s) :
    s.Calm qdrant ({ s with
      lock := lock
      pidFile := pidFile
      records := records }.put i a') := by
  refine ⟨Nat.le_refl _, fun _ _ h => h,
    fun pid hAlive hQdrant hRead => ?_, fun _ _ h => .inl h⟩
  have hNot := hShared.unnamed hActor hWarranted hRead hAlive
  rw [hQdrant] at hNot
  cases hNot

/- A child has the id of no sidecar. -/
theorem Shared.hidden_nextPid
    (hShared : s.Shared qdrant) :
    s.Hidden s.nextPid := by
  intro j b hSome hSidecar
  have hSound := hShared.inv.sound j b hSome
  unfold Actor.Sound at hSound
  cases hStage : b.stage <;> rw [hStage] at hSound hSidecar
  case probe =>
    cases hSidecar
    exact absurd hSound.1 (Nat.lt_irrefl _)
  case health =>
    cases hSidecar
    exact absurd hSound (Nat.lt_irrefl _)
  case running =>
    cases hSidecar
    exact absurd hSound (Nat.lt_irrefl _)
  all_goals cases hSidecar

/- Nobody else has a child while a process is inside. -/
theorem Shared.childless
    (hShared : s.Shared qdrant)
    (hActor : s.actors i = some a)
    (hLocked : a.stage.locked = true)
    {j : Nat} {b : Actor}
    (hOther : j ≠ i)
    (hSome : s.actors j = some b) :
    b.stage.child ≠ some pid := by
  intro h
  exact hShared.inv.guarded.not_inside ⟨a, hActor, hLocked⟩
    hOther ⟨b, hSome, (Stage.locked_of_child h).1⟩

/- The sidecar of a process is the child of no other one. -/
theorem Shared.not_child
    (hShared : s.Shared qdrant)
    (hActor : s.actors i = some a)
    (hSidecar : a.stage.sidecar = some pid)
    {j : Nat} {b : Actor}
    (hSome : s.actors j = some b) :
    b.stage.child ≠ some pid :=
  fun h => hShared.fresh j b pid hSome h i a hActor hSidecar

end Calm

------------------------------------------------------------
-- Steps
------------------------------------------------------------

section Steps

variable {qdrant : Nat → Bool} {s t : Directory}
variable {i : Nat} {a a' : Actor} {pid : Nat}

theorem fail_plain (e : StoreError) :
    (a.fail e).stage.Plain := by
  unfold Actor.fail
  cases a.watching <;> exact ⟨rfl, rfl⟩

theorem reaped_plain (reaping : Reaping) :
    (a.reaped reaping).stage.Plain := by
  unfold Actor.reaped
  split
  · exact ⟨rfl, rfl⟩
  · exact fail_plain _

theorem just_reaped
    (hJust : a.Just qdrant s)
    (reaping : Reaping) :
    (a.reaped reaping).Just qdrant s := by
  unfold Actor.reaped
  split
  · exact hJust
  · exact hJust

theorem recordedPort_eq
    {p : Nat}
    (hPort : s.portFile = some (pid, p)) :
    s.recordedPort pid = some p := by
  unfold recordedPort
  rw [hPort]
  simp

theorem reuse_cases
    (a : Actor)
    (existing : Nat)
    (recorded : Option Nat) :
    (∃ e, reuse a existing recorded = a.fail e) ∨
      (reuse a existing recorded =
          a.at (.health existing false) ∧
        ∀ p, recorded = some p → p = a.port) := by
  unfold reuse
  cases hCheck :
      checkRecordedPort existing recorded a.port with
  | error e => exact Or.inl ⟨e, rfl⟩
  | ok u =>
      refine Or.inr ⟨rfl, fun p hPort => ?_⟩
      rw [hPort] at hCheck
      unfold checkRecordedPort at hCheck
      by_contra hNe
      simp only [ne_eq, hNe, not_false_eq_true, if_true] at hCheck
      cases hCheck

/- Taken for qdrant, after the check of its recorded port. -/
theorem Shared.reuse
    {lock : Option Nat} {existing : Nat}
    {recorded : Option Nat}
    (hShared : s.Shared qdrant)
    (hActor : s.actors i = some a)
    (hInv :
      ({ s with lock := lock }.put i
        (reuse a existing recorded)).Inv)
    (hNamed :
      s.alive existing = true →
        qdrant existing = true ∧ s.readPid = some existing)
    (hPort :
      ∀ p, s.portFile = some (existing, p) →
        recorded = some p)
    (hOthers :
      ∀ j b, j ≠ i → s.actors j = some b →
        b.stage.child ≠ some existing) :
    ({ s with lock := lock }.put i
      (reuse a existing recorded)).Shared qdrant := by
  have hJust := (hShared.fair i a hActor).1
  rcases reuse_cases a existing recorded with
    ⟨e, hFail⟩ | ⟨hHealth, hSame⟩
  · rw [hFail] at hInv ⊢
    exact hShared.move hInv (Or.inl rfl) hJust (fail_plain e)
  · rw [hHealth] at hInv ⊢
    have hCalm :
        s.Calm qdrant ({ s with lock := lock }.put i
          (a.at (.health existing false))) :=
      calm_move (Or.inl rfl)
    refine hShared.put hInv rfl hCalm
      ⟨Just.calm hJust hCalm, hNamed, fun p h => ?_⟩
      (fun pid h => by cases h) (fun pid h => ?_)
    · exact hSame p (hPort p h)
    · cases h
      exact hOthers

/- The child is spawned. -/
theorem Shared.spawnChild
    (hShared : s.Shared qdrant)
    (hActor : s.actors i = some a)
    (hInv :
      ({ s with
        alive := Function.update s.alive s.nextPid true
        nextPid := s.nextPid + 1 }.put i
          (a.at (.writePid s.nextPid))).Inv)
    (hQdrant : qdrant s.nextPid = true) :
    ({ s with
      alive := Function.update s.alive s.nextPid true
      nextPid := s.nextPid + 1 }.put i
        (a.at (.writePid s.nextPid))).Shared qdrant := by
  have hCalm :
      s.Calm qdrant ({ s with
        alive := Function.update s.alive s.nextPid true
        nextPid := s.nextPid + 1 }.put i
          (a.at (.writePid s.nextPid))) := by
    refine ⟨Nat.le_succ _, fun pid hPid h => ?_,
      fun _ _ _ h => h, fun _ _ h => Or.inl h⟩
    change Function.update s.alive s.nextPid true pid = _
    rw [Function.update_of_ne (by omega), h]
  refine hShared.put hInv rfl hCalm
    ⟨Just.calm (hShared.fair i a hActor).1 hCalm, hQdrant⟩
    (fun pid h => ?_) (fun pid h => by cases h)
  cases h
  exact hShared.hidden_nextPid

/- The child is recorded. -/
theorem Shared.record
    {child : Nat} {records : List (Nat × Nat)}
    (hShared : s.Shared qdrant)
    (hActor : s.actors i = some a)
    (hStage : a.stage = .writePid child)
    (hInv :
      ({ s with
        pidFile := some (some child)
        records := records }.put i
          (a.at (.writePort child))).Inv) :
    ({ s with
      pidFile := some (some child)
      records := records }.put i
        (a.at (.writePort child))).Shared qdrant := by
  have hFair := hShared.fair i a hActor
  have hSound := hShared.inv.sound i a hActor
  unfold Actor.Sound at hSound
  have hQdrant := hFair.2
  rw [hStage] at hSound hQdrant
  have hCalm :
      s.Calm qdrant ({ s with
        pidFile := some (some child)
        records := records }.put i
          (a.at (.writePort child))) :=
    hShared.calm_pidFile hActor hSound.1
  refine hShared.put hInv rfl hCalm
    ⟨Just.calm hFair.1 hCalm, hQdrant, fun _ _ => rfl⟩
    (fun pid h => ?_) (fun pid h => by cases h)
  cases h
  exact hShared.fresh i a child hActor (by rw [hStage]; rfl)

/- The port of the child is recorded. -/
theorem Shared.recordPort
    {child : Nat}
    (hShared : s.Shared qdrant)
    (hActor : s.actors i = some a)
    (hStage : a.stage = .writePort child)
    (hInv :
      ({ s.unlock with
        portFile := some (child, a.port) }.put i
          (a.at (.health child true))).Inv) :
    ({ s.unlock with
      portFile := some (child, a.port) }.put i
        (a.at (.health child true))).Shared qdrant := by
  have hFair := hShared.fair i a hActor
  have hChild := hFair.2
  rw [hStage] at hChild
  have hHidden : s.Hidden child :=
    hShared.fresh i a child hActor (by rw [hStage]; rfl)
  have hCalm :
      s.Calm qdrant ({ s.unlock with
        portFile := some (child, a.port) }.put i
          (a.at (.health child true))) := by
    refine ⟨Nat.le_refl _, fun _ _ h => h, fun _ _ _ h => h,
      fun pid p h => ?_⟩
    cases h
    exact Or.inr hHidden
  refine hShared.put hInv rfl hCalm
    ⟨Just.calm hFair.1 hCalm, fun h => ⟨hChild.1, ?_⟩,
      fun p h => by cases h; rfl⟩
    (fun pid h => by cases h) (fun pid h j b hOther hSome => ?_)
  · exact hChild.2 h hChild.1
  · cases h
    exact hShared.childless hActor (by rw [hStage]; rfl)
      hOther hSome

/- The sidecar is up. -/
theorem Shared.up
    {ours : Bool}
    (hShared : s.Shared qdrant)
    (hActor : s.actors i = some a)
    (hStage : a.stage = .health pid ours)
    (hInv : (s.put i (a.at (.running pid ours))).Inv) :
    (s.put i (a.at (.running pid ours))).Shared qdrant := by
  have hFair := hShared.fair i a hActor
  have hServes := hFair.2
  rw [hStage] at hServes
  have hSidecar : a.stage.sidecar = some pid := by
    rw [hStage]
    rfl
  have hCalm :
      s.Calm qdrant (s.put i (a.at (.running pid ours))) :=
    calm_move (Or.inl rfl)
  refine hShared.put hInv rfl hCalm
    ⟨Just.calm hFair.1 hCalm, hServes.1, hServes.2⟩
    (fun pid h => by cases h) (fun other h j b _ hSome => ?_)
  cases h
  exact hShared.not_child hActor hSidecar hSome

/- A process that is not judged to be qdrant is probed. -/
theorem Shared.probe
    {existing : Nat}
    (hShared : s.Shared qdrant)
    (hActor : s.actors i = some a)
    (hStage : a.stage = .inspect existing)
    (hInv :
      (s.unlock.put i (a.at
        (.probe existing (s.recordedPort existing)))).Inv) :
    (s.unlock.put i (a.at
      (.probe existing (s.recordedPort existing)))).Shared
        qdrant := by
  have hSound := hShared.inv.sound i a hActor
  unfold Actor.Sound at hSound
  rw [hStage] at hSound
  have hCalm :
      s.Calm qdrant (s.unlock.put i (a.at
        (.probe existing (s.recordedPort existing)))) :=
    calm_move (Or.inl rfl)
  refine hShared.put hInv rfl hCalm
    ⟨Just.calm (hShared.fair i a hActor).1 hCalm,
      fun _ _ => hSound, fun p h => ?_⟩
    (fun pid h => by cases h) (fun pid h j b hOther hSome => ?_)
  · exact recordedPort_eq h
  · cases h
    exact hShared.childless hActor (by rw [hStage]; rfl)
      hOther hSome

theorem Shared.act
    {o : Outcome}
    (hShared : s.Shared qdrant)
    (hActor : s.actors i = some a)
    (hTruthful : s.Truthful qdrant (.act i o))
    (hNext : s.actNext i a o = some t) :
    t.Shared qdrant := by
  have hInv := hShared.inv.act hActor hNext
  have hSound := hShared.inv.sound i a hActor
  have hJust := (hShared.fair i a hActor).1
  have hFair := (hShared.fair i a hActor).2
  have hTold := hTruthful a hActor
  unfold Actor.Sound at hSound
  cases hStage : a.stage <;> cases o <;>
    simp only [actNext, hStage, Option.some.injEq,
      reduceCtorEq] at hNext
  all_goals rw [hStage] at hSound hFair hTold
  case acquire.ok | reacquire.ok | reapAcquire.ok =>
    split at hNext <;> cases hNext
    exact hShared.move hInv (Or.inl rfl)
      ⟨hJust.1, fun h => by cases h⟩ ⟨rfl, rfl⟩
  case acquire.failed | reacquire.failed =>
    subst hNext
    exact hShared.move hInv (Or.inl rfl) hJust (fail_plain _)
  case resolve.ok =>
    subst hNext
    refine hShared.move hInv (Or.inl rfl)
      ⟨(fun _ _ h => by cases h), (fun h => by cases h)⟩ ?_
    cases s.readPid <;> exact ⟨rfl, rfl⟩
  case resolve.failed => exact hTold.elim
  case checkAlive.ok existing =>
    subst hNext
    refine hShared.move hInv (Or.inl rfl) hJust ?_
    cases s.alive existing <;> exact ⟨rfl, rfl⟩
  case inspect.ok existing =>
    subst hNext
    refine hShared.reuse hActor hInv
      (fun h => ⟨hTold h, hSound⟩)
      (fun p h => recordedPort_eq h)
      (fun j b hOther hSome => ?_)
    exact hShared.childless hActor (by rw [hStage]; rfl)
      hOther hSome
  case inspect.failed existing e =>
    subst hNext
    exact hShared.probe hActor hStage hInv
  case probe.ok existing recorded =>
    subst hNext
    refine hShared.reuse hActor hInv
      (fun h => ⟨hTold h, hFair.1 h (hTold h)⟩) hFair.2
      (fun j b _ hSome => ?_)
    exact hShared.not_child hActor (by rw [hStage]; rfl) hSome
  case probe.failed existing recorded e =>
    subst hNext
    refine hShared.move hInv (Or.inl rfl)
      ⟨fun pid time h => ?_, hJust.2⟩ ⟨rfl, rfl⟩
    cases h
    exact ⟨hSound.1, hTold⟩
  case reread.ok existing =>
    subst hNext
    refine hShared.move hInv (Or.inl rfl)
      ⟨hJust.1, fun h => by cases h⟩ ?_
    change Stage.Plain (if _ then _ else _)
    split <;> exact ⟨rfl, rfl⟩
  case reread.failed => exact hTold.elim
  case removePid.ok reaping =>
    subst hNext
    exact hShared.plain hInv rfl
      (hShared.calm_pidFile hActor hSound) hJust ⟨rfl, rfl⟩
  case removePid.failed reaping e =>
    subst hNext
    exact hShared.move hInv (Or.inl rfl) hJust ⟨rfl, rfl⟩
  case removePort.ok reaping =>
    cases reaping with
    | none =>
        cases hNext
        exact hShared.move hInv (Or.inr rfl) hJust ⟨rfl, rfl⟩
    | some reaping =>
        cases hNext
        exact hShared.move hInv (Or.inr rfl)
          (just_reaped hJust reaping) (reaped_plain reaping)
  case removePort.failed reaping e =>
    cases reaping with
    | none =>
        cases hNext
        exact hShared.move hInv (Or.inl rfl) hJust ⟨rfl, rfl⟩
    | some reaping =>
        cases hNext
        exact hShared.move hInv (Or.inl rfl)
          (just_reaped hJust reaping) (reaped_plain reaping)
  case spawn.ok =>
    split at hNext <;> cases hNext
    · exact hShared.move hInv (Or.inl rfl) hJust (fail_plain _)
    · exact hShared.spawnChild hActor hInv hTold
  case spawn.failed =>
    subst hNext
    exact hShared.move hInv (Or.inl rfl) hJust (fail_plain _)
  case writePid.ok child =>
    subst hNext
    exact hShared.record hActor hStage hInv
  case writePid.failed child e =>
    subst hNext
    exact hShared.move hInv (Or.inl rfl) hJust ⟨rfl, rfl⟩
  case writePid.truncated child e =>
    subst hNext
    exact hShared.plain hInv rfl
      (hShared.calm_pidFile hActor hSound.1) hJust ⟨rfl, rfl⟩
  case writePort.ok child =>
    subst hNext
    exact hShared.recordPort hActor hStage hInv
  case writePort.failed child e =>
    subst hNext
    exact hShared.move hInv (Or.inl rfl) hJust ⟨rfl, rfl⟩
  case writePort.truncated child e =>
    subst hNext
    exact hShared.move hInv (Or.inr rfl) hJust ⟨rfl, rfl⟩
  case health.ok pid ours =>
    subst hNext
    exact hShared.up hActor hStage hInv
  case health.failed pid ours e =>
    cases ours with
    | true =>
        cases hNext
        exact hShared.move hInv (Or.inl rfl) hJust ⟨rfl, rfl⟩
    | false =>
        cases hNext
        exact hShared.move hInv (Or.inl rfl) hJust
          (fail_plain _)
  case running.ok pid ours =>
    split at hNext
    · cases hNext
      refine hShared.move hInv (Or.inl rfl) hJust ?_
      cases ours <;> exact ⟨rfl, rfl⟩
    · split at hNext <;> cases hNext
      exact hShared.move hInv (Or.inl rfl) hJust ⟨rfl, rfl⟩
  case running.failed pid ours e =>
    split at hNext <;> cases hNext
    exact hShared.move hInv (Or.inl rfl) hJust ⟨rfl, rfl⟩
  case reap.ok reaping =>
    subst hNext
    refine hShared.plain hInv rfl ⟨Nat.le_refl _, ?_,
      fun _ _ _ h => h, fun _ _ h => .inl h⟩ hJust ⟨rfl, rfl⟩
    intro pid _ h
    change Function.update s.alive reaping.child false pid = _
    rw [Function.update_apply, h, ite_self]
  case reapAcquire.failed reaping e =>
    subst hNext
    exact hShared.move hInv (Or.inl rfl)
      (just_reaped hJust reaping) (reaped_plain reaping)
  case reapRead.ok reaping =>
    split at hNext <;> cases hNext
    · exact hShared.move hInv (Or.inl rfl)
        ⟨hJust.1, fun h => by cases h⟩ ⟨rfl, rfl⟩
    · have hRead :
          { a with
            found := some (.names s.readPid) }.Just qdrant s :=
        ⟨hJust.1, fun h => by cases h⟩
      exact hShared.move hInv (Or.inl rfl)
        (just_reaped hRead reaping) (reaped_plain reaping)
  case reapRead.failed reaping e =>
    subst hNext
    exact hShared.move hInv (Or.inl rfl)
      (just_reaped hJust reaping) (reaped_plain reaping)

/- A step that no process of ours takes. -/
theorem Shared.external
    (hShared : s.Shared qdrant)
    (hInv : t.Inv)
    (hActors : t.actors = s.actors)
    (hCalm : s.Calm qdrant t) :
    t.Shared qdrant := by
  refine ⟨hInv, fun i a hSome => ?_, ?_⟩
  · rw [hActors] at hSome
    exact hShared.fair_calm hSome hCalm
  · unfold Hidden
    rw [hActors]
    exact hShared.fresh

theorem Shared.next
    {e : Event}
    (hShared : s.Shared qdrant)
    (hNext : s.next e = some t)
    (hTruthful : s.Truthful qdrant e) :
    t.Shared qdrant := by
  have hInv := hShared.inv.next hNext
  cases e with
  | begin i port policy =>
      simp only [Directory.next] at hNext
      split at hNext <;> cases hNext
      exact hShared.move hInv (Or.inl rfl)
        ⟨(fun _ _ h => by cases h), (fun h => by cases h)⟩
        ⟨rfl, rfl⟩
  | act i o =>
      simp only [Directory.next] at hNext
      split at hNext
      · rename_i a hActor
        exact hShared.act hActor hTruthful hNext
      · cases hNext
  | crash i =>
      simp only [Directory.next] at hNext
      split at hNext
      · rename_i a hActor
        have hJust := (hShared.fair i a hActor).1
        cases hNext
        split at hInv <;> rename_i hLocked
        · rw [if_pos hLocked]
          exact hShared.move hInv (Or.inl rfl) hJust ⟨rfl, rfl⟩
        · rw [if_neg hLocked]
          exact hShared.move hInv (Or.inl rfl) hJust ⟨rfl, rfl⟩
      · cases hNext
  | fork =>
      cases hNext
      refine hShared.external hInv rfl ⟨Nat.le_succ _, ?_,
        fun _ _ _ h => h, fun _ _ h => .inl h⟩
      intro pid hPid h
      change Function.update s.alive s.nextPid true pid = _
      rw [Function.update_of_ne (by omega), h]
  | exit pid =>
      cases hNext
      refine hShared.external hInv rfl ⟨Nat.le_refl _, ?_,
        fun _ _ _ h => h, fun _ _ h => .inl h⟩
      intro other _ h
      change Function.update s.alive pid false other = _
      rw [Function.update_apply, h, ite_self]

theorem Initial.shared (hInitial : s.Initial) :
    s.Shared qdrant where
  inv := hInitial.inv
  fair i a h := by
    rw [hInitial.actors] at h
    cases h
  fresh i a pid h := by
    rw [hInitial.actors] at h
    cases h

end Steps

end Directory

------------------------------------------------------------
-- One Sidecar
------------------------------------------------------------

/-
  Two processes of the directory whose sidecars are alive have
  the same one.  The PID file names it, and when its port is
  recorded it is the port of both.
-/
theorem sidecar_shared
    {qdrant : Nat → Bool} {s : Directory}
    {i j pid other : Nat} {a b : Actor} {ours ours' : Bool}
    (hReach :
      (machine.restrict
        (Directory.Truthful qdrant)).Reachable s)
    (hFirst : s.actors i = some a)
    (hSecond : s.actors j = some b)
    (hStage : a.stage = .running pid ours)
    (hStage' : b.stage = .running other ours')
    (hAlive : s.alive pid = true)
    (hAlive' : s.alive other = true) :
    pid = other ∧ qdrant pid = true ∧
      s.readPid = some pid ∧
        ∀ port, s.recordedPort pid = some port →
          port = a.port ∧ port = b.port := by
  rcases hReach with ⟨s₀, es, hInitial, hRun⟩
  have hShared : s.Shared qdrant :=
    hRun.restrict_invariant
      (fun _ _ _ hShared hNext hTruthful =>
        Directory.Shared.next hShared hNext hTruthful)
      (Directory.Initial.shared hInitial)
  have hServes := (hShared.fair i a hFirst).2
  have hServes' := (hShared.fair j b hSecond).2
  rw [hStage] at hServes
  rw [hStage'] at hServes'
  rcases hServes.named hAlive with ⟨hQdrant, hRead⟩
  rcases hServes'.named hAlive' with ⟨_, hRead'⟩
  rw [hRead] at hRead'
  cases hRead'
  refine ⟨rfl, hQdrant, hRead, fun port hPort => ?_⟩
  unfold Directory.recordedPort at hPort
  rcases Option.map_eq_some_iff.mp hPort with
    ⟨⟨recorded, p⟩, hFilter, hEq⟩
  rcases Option.filter_eq_some_iff.mp hFilter with
    ⟨hFile, hSame⟩
  cases hEq
  obtain rfl : recorded = pid := of_decide_eq_true hSame
  exact ⟨hServes.port p hFile, hServes'.port p hFile⟩

theorem Directory.truthful_of_ok
    {s : Directory} {e : Event}
    (hOk : ∀ i message, e ≠ .act i (.failed message)) :
    s.Truthful (fun _ => true) e := by
  cases e with
  | act i o =>
      intro a _
      cases o with
      | failed message => exact absurd rfl (hOk i message)
      | ok => cases a.stage <;> first | exact True.intro | simp
      | truncated message => cases a.stage <;> exact True.intro
  | _ => exact True.intro

/-
  The sidecar of two processes dies.  One of them starts it
  again, and the other one finds that.
-/
theorem sidecar_shared_after_restart :
    ∃ (s : Directory) (a b : Actor),
      s.actors 0 = some a ∧ s.actors 1 = some b ∧
        s.readPid = some 2 ∧
          ∀ port, s.recordedPort 2 = some port →
            port = a.port ∧ port = b.port := by
  let events : List Event :=
    .begin 0 6334 .leaveRunning ::
      (List.replicate 6 (.act 0 .ok) ++
        .begin 1 6334 .leaveRunning ::
          (List.replicate 5 (.act 1 .ok) ++
            .exit 1 ::
              (List.replicate 10 (.act 0 .ok) ++
                List.replicate 6 (.act 1 .ok))))
  rcases run_of_any Directory.empty events
    (fun s =>
      (s.actors 0).any
        (fun a => decide (a.stage = Stage.running 2 true)) &&
      (s.actors 1).any
        (fun a => decide (a.stage = Stage.running 2 false)) &&
      s.alive 2)
    (by decide +kernel) with ⟨s, hRun, hTest⟩
  simp only [Bool.and_eq_true] at hTest
  rcases hTest with ⟨⟨hFirst, hSecond⟩, hAlive⟩
  rcases (Option.any_eq_true _ _).mp hFirst with
    ⟨a, hActor, hStage⟩
  rcases (Option.any_eq_true _ _).mp hSecond with
    ⟨b, hActor', hStage'⟩
  have hReach :
      (machine.restrict
        (Directory.Truthful (fun _ => true))).Reachable s := by
    refine ⟨_, events, Directory.initial_empty,
      hRun.restrict _ (fun e he s => ?_)⟩
    refine Directory.truthful_of_ok (fun i message hEq => ?_)
    rw [hEq] at he
    simp [events] at he
  exact ⟨s, a, b, hActor, hActor',
    (sidecar_shared hReach hActor hActor'
      (of_decide_eq_true hStage) (of_decide_eq_true hStage')
      hAlive hAlive).2.2⟩

end Sidecar

end Store

end Ferrex
