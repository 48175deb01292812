import Ferrex.Daemon.Listener

/-
  The PID file of a key: a daemon that serves is the one that
  it names, and holds the lock on it.

  Main declarations:
    * `DaemonStage.era`, `DaemonStage.registered`
    * `RunDir.Registered`
    * `serving_held`
-/

------------------------------------------------------------
-- Registered Daemons
------------------------------------------------------------

namespace Ferrex

namespace Daemon

namespace Spawn

namespace DaemonStage

/-
  Before a daemon has written its PID file, from then on until
  it removes the file in `finish`, and after that.
-/
def era : DaemonStage → Nat
| .serve _ => 1
| .acquireLock _ _ => 1
| .drainBacklog _ _ => 1
| .resume _ => 1
| .close _ _ => 1
| .readPidFile _ => 1
| .removePidFile _ => 1
| .checkSocket finishing _ => if finishing then 2 else 0
| .removeSocket finishing => if finishing then 2 else 0
| .releaseLock => 2
| .stop => 2
| .exited _ => 2
| _ => 0

/-
  The daemon has written its PID file and has not removed
  it.
-/
def registered (stage : DaemonStage) : Bool :=
  stage.era = 1

variable {stage : DaemonStage}

/- There are three eras. -/
theorem era_le (stage : DaemonStage) : stage.era ≤ 2 := by
  cases stage <;> simp only [era] <;> first | omega | split <;> omega

/- A registered daemon holds the file. -/
theorem holdsPid_of_registered
    (hRegistered : stage.registered = true) :
    stage.holdsPid = true := by
  cases stage <;> first
    | rfl
    | cases hRegistered
    | (rename_i finishing _
       cases finishing <;> cases hRegistered)
    | (rename_i finishing
       cases finishing <;> cases hRegistered)

/- A registered daemon listens, or it is ending. -/
theorem listening_or_finishing
    (hRegistered : stage.registered = true) :
    stage.listening = true ∨ stage.finishing = true := by
  cases stage <;> first
    | exact Or.inl rfl
    | exact Or.inr rfl
    | cases hRegistered
    | (rename_i finishing _
       cases finishing <;> cases hRegistered)
    | (rename_i finishing
       cases finishing <;> cases hRegistered)

end DaemonStage

namespace RunDir

variable {s t : RunDir} {paths : Paths} {d e : Nat} {o : Outcome}

/- The PID file is that of any daemon that is registered. -/
def Registered (s : RunDir) : Prop :=
  ∀ d, (s.daemons d).registered = true →
    s.pidFile = some (some d)

/- The file of a registered daemon is held. -/
theorem Registered.held
    (hRegistered : s.Registered)
    (hStage : (s.daemons d).registered = true) :
    s.pidFileHeld = true := by
  unfold pidFileHeld
  rw [hRegistered d hStage]
  exact DaemonStage.holdsPid_of_registered hStage

------------------------------------------------------------
-- Steps
------------------------------------------------------------

/- A proxy spawns daemons and kills them, and no more. -/
theorem daemons_proxyNext
    {p : Nat}
    (hNext : s.proxyNext paths p o = some t) :
    t.pidFile = s.pidFile ∧
      (t.daemons = s.daemons ∨
        t.daemons =
          Function.update s.daemons s.nextDaemon .setUp ∨
        ∃ child status,
          t.daemons =
            Function.update s.daemons child
              (.exited status)) := by
  unfold proxyNext at hNext
  cases hStage : s.proxies p <;> cases o <;>
    simp only [hStage, Option.some.injEq, Option.map_eq_some_iff,
      reduceCtorEq] at hNext
  case spawn.ok =>
    subst hNext
    exact ⟨rfl, Or.inr (Or.inl rfl)⟩
  case dropGuard.ok child answer =>
    subst hNext
    refine ⟨rfl, Or.inr (Or.inr ?_)⟩
    cases hChild : s.daemons child with
    | exited status => exact ⟨child, status, rfl⟩
    | _ => exact ⟨child, _, rfl⟩
  case connect.ok | reconnect.ok | waitForAccept.ok =>
    rcases hNext with ⟨_, _, rfl⟩
    exact ⟨rfl, Or.inl rfl⟩
  case connect.failed | acquireLock.ok | reconnect.failed |
    waitForAccept.failed =>
      split at hNext <;> cases hNext
      exact ⟨rfl, Or.inl rfl⟩
  all_goals
    subst hNext
    exact ⟨rfl, Or.inl rfl⟩

/-
  A daemon writes its PID file when it gets registered, and
  removes it when that ends.
-/
theorem pidFile_daemonNext
    (hNext : s.daemonNext d o = some t) :
    ∃ stage,
      t.daemons = Function.update s.daemons d stage ∧
        (s.daemons d).era ≤ stage.era ∧
        ((t.pidFile = s.pidFile ∧
            (stage.era = 1 → (s.daemons d).era = 1)) ∨
          (t.pidFile = some (some d) ∧
            (s.daemons d).listening = true) ∨
          (stage.era = 2 ∧
            (s.daemons d).finishing = true)) := by
  unfold daemonNext at hNext
  cases hStage : s.daemons d <;> cases o <;>
    simp only [hStage, Option.some.injEq, Option.map_eq_some_iff,
      reduceCtorEq] at hNext
  case writeLocked.ok =>
    subst hNext
    exact ⟨_, rfl, by simp [DaemonStage.era],
      Or.inr (Or.inl ⟨rfl, rfl⟩)⟩
  case removePidFile.ok =>
    subst hNext
    exact ⟨_, rfl, by simp [DaemonStage.era],
      Or.inr (Or.inr ⟨rfl, rfl⟩)⟩
  case connect.ok | bindRace.ok | stat.ok =>
    rcases hNext with ⟨_, _, rfl⟩
    exact ⟨_, rfl, by simp [DaemonStage.era],
      Or.inl ⟨rfl, by simp [DaemonStage.era]⟩⟩
  case connect.failed | bindRace.failed | bind.created |
    acquireLock.ok =>
      split at hNext <;> cases hNext
      exact ⟨_, rfl, by simp [DaemonStage.era],
      Or.inl ⟨rfl, by simp [DaemonStage.era]⟩⟩
  case drainBacklog.busy trigger socketId =>
    cases trigger <;> cases hNext
    exact ⟨_, rfl, by simp [DaemonStage.era],
      Or.inl ⟨rfl, by simp [DaemonStage.era]⟩⟩
  case checkSocket.ok finishing socketId =>
    subst hNext
    refine ⟨_, rfl, ?_, Or.inl ⟨rfl, ?_⟩⟩
    all_goals
      split <;> cases finishing <;> simp [DaemonStage.era]
  case checkSocket.failed finishing _ _ |
    removeSocket.ok finishing | removeSocket.failed finishing _ =>
      subst hNext
      refine ⟨_, rfl, ?_, Or.inl ⟨rfl, ?_⟩⟩
      all_goals cases finishing <;> simp [DaemonStage.era]
  case bind.failed | acquireLock.expired | acquireLock.failed |
    readPidFile.ok | close.ok =>
      subst hNext
      refine ⟨_, rfl, ?_, Or.inl ⟨rfl, ?_⟩⟩
      all_goals split <;> simp [DaemonStage.era]
  all_goals
    subst hNext
    exact ⟨_, rfl, by simp [DaemonStage.era],
      Or.inl ⟨rfl, by simp [DaemonStage.era]⟩⟩

/- A killed daemon leaves its file behind. -/
theorem daemons_kill
    {status : String}
    (hNext : s.next paths (.kill d status) = some t) :
    t.pidFile = s.pidFile ∧
      t.daemons =
        Function.update s.daemons d (.exited status) := by
  simp only [next] at hNext
  split at hNext
  · cases hNext
  · cases hNext
  · cases hNext
    split <;> exact ⟨rfl, rfl⟩

/- No step takes a daemon back. -/
theorem era_next
    {ev : Event}
    (hInv : s.Inv)
    (hNext : s.next paths ev = some t) :
    (s.daemons d).era ≤ (t.daemons d).era := by
  cases ev with
  | proxy p o =>
      rcases (daemons_proxyNext hNext).2 with
        hSame | hSpawned | ⟨child, status, hKilled⟩
      · exact Nat.le_of_eq (by rw [hSame])
      · rw [hSpawned, Function.update_apply]
        split
        · rename_i hNew
          have hUnborn :=
            hInv.unborn d (Nat.le_of_eq hNew.symm)
          exact hUnborn ▸ Nat.zero_le _
        · exact Nat.le_refl _
      · rw [hKilled, Function.update_apply]
        split
        · exact DaemonStage.era_le _
        · exact Nat.le_refl _
  | daemon e o =>
      rcases pidFile_daemonNext hNext with ⟨stage, hEq, hLe, _⟩
      rw [hEq, Function.update_apply]
      split
      · rename_i hSame
        rw [hSame]
        exact hLe
      · exact Nat.le_refl _
  | kill e status =>
      rw [(daemons_kill hNext).2, Function.update_apply]
      split
      · exact DaemonStage.era_le _
      · exact Nat.le_refl _

/- Two daemons are not registered at once. -/
theorem Inv.registered_unique
    (hInv : s.Inv)
    (hFirst : (s.daemons d).registered = true)
    (hSecond :
      (s.daemons e).listening = true ∨
        (s.daemons e).finishing = true) :
    d = e := by
  rcases DaemonStage.listening_or_finishing hFirst with
    hListening | hFinishing
  · rcases hSecond with hOther | hOther
    · exact hInv.listening_unique hListening hOther
    · have hBarred := hInv.barred (.daemon e) d hOther
      rw [hListening] at hBarred
      cases hBarred
  · rcases hSecond with hOther | hOther
    · have hBarred := hInv.barred (.daemon d) e hFinishing
      rw [hOther] at hBarred
      cases hBarred
    · have hSame : Party.daemon d = .daemon e :=
        hInv.guarded.unique
          (DaemonStage.locked_of_finishing hFinishing).1
          (DaemonStage.locked_of_finishing hOther).1
      exact Party.daemon.inj hSame

/- Each step of a daemon keeps this. -/
theorem Registered.daemonNext
    (hRegistered : s.Registered)
    (hInv : s.Inv)
    (hNext : s.daemonNext d o = some t) :
    t.Registered := by
  rcases pidFile_daemonNext hNext with ⟨stage, hEq, _, hFile⟩
  intro e hStage
  rw [hEq, Function.update_apply] at hStage
  rcases hFile with
    ⟨hSame, hOld⟩ | ⟨hWritten, hListening⟩ | ⟨hOver, hFinishing⟩
  · rw [hSame]
    apply hRegistered
    split at hStage
    · rename_i hIs
      rw [hIs]
      exact decide_eq_true (hOld (of_decide_eq_true hStage))
    · exact hStage
  · rw [hWritten]
    split at hStage
    · rename_i hIs
      rw [hIs]
    · rw [hInv.registered_unique hStage (Or.inl hListening)]
  · split at hStage
    · have hNow : stage.era = 1 := of_decide_eq_true hStage
      omega
    · rename_i hNot
      exact absurd
        (hInv.registered_unique hStage (Or.inr hFinishing)) hNot

/- Every step keeps the registered ones named. -/
theorem Registered.next
    {ev : Event}
    (hRegistered : s.Registered)
    (hInv : s.Inv)
    (hNext : s.next paths ev = some t) :
    t.Registered := by
  cases ev with
  | proxy p o =>
      rcases daemons_proxyNext hNext with
        ⟨hFile, hSame | hSpawned | ⟨child, status, hKilled⟩⟩
      · intro d hStage
        rw [hFile]
        rw [hSame] at hStage
        exact hRegistered d hStage
      · intro d hStage
        rw [hFile]
        rw [hSpawned, Function.update_apply] at hStage
        split at hStage
        · cases hStage
        · exact hRegistered d hStage
      · intro d hStage
        rw [hFile]
        rw [hKilled, Function.update_apply] at hStage
        split at hStage
        · cases hStage
        · exact hRegistered d hStage
  | daemon e o => exact hRegistered.daemonNext hInv hNext
  | kill e status =>
      intro d hStage
      rcases daemons_kill hNext with ⟨hFile, hKilled⟩
      rw [hFile]
      rw [hKilled, Function.update_apply] at hStage
      split at hStage
      · cases hStage
      · exact hRegistered d hStage

end RunDir

/-
  A proxy finds no socket and spawns a daemon, which listens,
  is connected to, and writes its PID file.
-/
def launch (p d socketId : Nat) : List Event :=
  let absent : Outcome := .failed ⟨.notFound, "os error 2"⟩
  [.proxy p .ok, .proxy p absent, .proxy p .ok, .proxy p .ok,
    .proxy p absent, .proxy p absent, .proxy p .ok,
    .proxy p .ok, .daemon d .ok, .daemon d absent,
    .daemon d (.created socketId), .daemon d .ok,
    .proxy p .ok, .proxy p .ok, .daemon d .ok, .daemon d .ok]

end Spawn

end Daemon

end Ferrex
