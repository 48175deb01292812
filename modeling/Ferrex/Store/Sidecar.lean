import Mathlib.Data.List.Basic
import Ferrex.Lib.Mutex
import Ferrex.Lib.Transition
import Ferrex.Store.Schema

/-
  The Qdrant sidecar that the processes of one directory
  share: who starts, reuses, watches and reaps it, with the
  PID and port files that record it and the lock file that
  guards them.

  Main declarations:
    * `Stage`, `Actor`, `Directory`
    * `Directory.actNext`, `Directory.next`, `machine`
-/

------------------------------------------------------------
-- State
------------------------------------------------------------

namespace Ferrex

namespace Store

namespace Sidecar

inductive SidecarPolicy where
| killOnDrop
| leaveRunning
deriving DecidableEq

/- The error that a reaper returns with, if there is one. -/
structure Reaping where
  child : Nat
  err : Option StoreError
deriving DecidableEq

/-
  The next call of a process: of `resolve_existing` up to
  `reread`, with the process that the PID file named; of
  `remove_pid_files`, for a reaper or a starter; of `spawn`;
  and of `reap`.
-/
inductive Stage where
| acquire
| resolve
| checkAlive (existing : Nat)
| inspect (existing : Nat)
| probe (existing : Nat) (recorded : Option Nat)
| reacquire (existing : Nat)
| reread (existing : Nat)
| removePid (reaping : Option Reaping)
| removePort (reaping : Option Reaping)
| spawn
| writePid (child : Nat)
| writePort (child : Nat)
| health (pid : Nat) (ours : Bool)
| running (pid : Nat) (ours : Bool)
| reap (reaping : Reaping)
| reapAcquire (reaping : Reaping)
| reapRead (reaping : Reaping)
| ended
| failed (e : StoreError)
deriving DecidableEq

namespace Stage

/- The stages of a process that has the lock file locked. -/
def locked : Stage → Bool
| .resolve => true
| .checkAlive _ => true
| .inspect _ => true
| .reread _ => true
| .removePid _ => true
| .removePort _ => true
| .spawn => true
| .writePid _ => true
| .writePort _ => true
| .reapRead _ => true
| _ => false

/- The step removes or overwrites the PID file. -/
def touches : Stage → Bool
| .removePid _ => true
| .writePid _ => true
| _ => false

/- Decided to spawn, and the child not yet recorded. -/
def spawning : Stage → Bool
| .removePid none => true
| .removePort none => true
| .spawn => true
| .writePid _ => true
| .writePort _ => true
| _ => false

end Stage

/-
  What a read of the PID file finds: the process that its
  text names, if it does, or an error.
-/
inductive Reading where
| names (pid : Option Nat)
| unreadable
deriving DecidableEq

/-
  A process, with its history: what its last read of the PID
  file in its present hold of the lock found, and the process
  it has judged not to be qdrant since the read before, with
  the time of that judgement.
-/
structure Actor where
  port : Nat
  policy : SidecarPolicy
  watching : Bool
  stage : Stage
  found : Option Reading
  judged : Option (Nat × Nat)

namespace Actor

def «at» (a : Actor) (stage : Stage) : Actor :=
  { a with stage := stage }

/- A watcher starts over, anyone else gives up. -/
def fail (a : Actor) (e : StoreError) : Actor :=
  a.at (if a.watching then .acquire else .failed e)

/- The end of `reap`. -/
def reaped (a : Actor) (reaping : Reaping) : Actor :=
  match reaping.err with
  | none => a.at .ended
  | some e => a.fail e

end Actor

/-
  The directory and the processes of the machine.  The PID
  file is absent, or has a text that names a process or does
  not.  `time` and `records` are history.
-/
structure Directory where
  pidFile : Option (Option Nat)
  portFile : Option (Nat × Nat)
  lock : Option Nat
  alive : Nat → Bool
  nextPid : Nat
  actors : Nat → Option Actor
  time : Nat
  records : List (Nat × Nat)

def minPort : Nat := 2

/- How a call of a stage comes out. -/
inductive Outcome where
| ok
| failed (message : String)
| truncated (message : String)
deriving DecidableEq

namespace Directory

/- The process that the PID file names. -/
def readPid (s : Directory) : Option Nat :=
  s.pidFile.join

/- The port that is recorded for a process. -/
def recordedPort
    (s : Directory)
    (pid : Nat) : Option Nat :=
  (s.portFile.filter (fun r => r.1 = pid)).map Prod.snd

def checkRecordedPort
    (pid : Nat)
    (recorded : Option Nat)
    (port : Nat) : Except StoreError Unit :=
  match recorded with
  | some recorded =>
      if recorded ≠ port then
        .error (.sidecar
          ("qdrant sidecar (pid " ++ toString pid ++
            ") is running on port " ++ toString recorded ++
            ", but qdrant_port is " ++ toString port ++
            ". Set qdrant_port = " ++ toString recorded ++
            ", or close the sessions still using the old " ++
            "config (or kill their ferrex daemons), then " ++
            "stop qdrant"))
      else
        .ok ()
  | none => .ok ()

/- A process goes on to its next stage. -/
def put (s : Directory) (i : Nat) (a : Actor) : Directory :=
  { s with
    actors := Function.update s.actors i (some a)
    time := s.time + 1 }

def locking (s : Directory) (i : Nat) : Directory :=
  { s with lock := some i }

def unlock (s : Directory) : Directory :=
  { s with lock := none }

/- What a starter does with a process it takes for qdrant. -/
def reuse
    (a : Actor)
    (existing : Nat)
    (recorded : Option Nat) : Actor :=
  match checkRecordedPort existing recorded a.port with
  | .error e => a.fail e
  | .ok () => a.at (.health existing false)

------------------------------------------------------------
-- Steps
------------------------------------------------------------

/-
  The step of a process, when it can happen.  `ok` stands for
  a lock that is free, a yes of `is_qdrant` or of a probe, and
  the success of a call; a removal that fails is ignored, and
  a PID file that cannot be read is taken for none.
-/
def actNext
    (s : Directory)
    (i : Nat)
    (a : Actor)
    (o : Outcome) : Option Directory :=
  match a.stage, o with
  -- `resolve_existing`
  | .acquire, .ok =>
      if s.lock = none then
        some ((s.locking i).put i
          { a with stage := .resolve, found := none })
      else
        none
  | .acquire, .failed e => some (s.put i (a.fail (.sidecar e)))
  | .resolve, .ok =>
      some (s.put i
        { a with
          stage :=
            match s.readPid with
            | none => .spawn
            | some existing => .checkAlive existing
          found := some (.names s.readPid)
          judged := none })
  | .resolve, .failed _ =>
      some (s.put i
        { a with
          stage := .spawn
          found := some .unreadable
          judged := none })
  | .checkAlive existing, .ok =>
      some (s.put i
        (a.at (if s.alive existing then
          .inspect existing
        else
          .removePid none)))
  | .inspect existing, .ok =>
      some (s.unlock.put i
        (reuse a existing (s.recordedPort existing)))
  | .inspect existing, .failed _ =>
      some (s.unlock.put i
        (a.at (.probe existing (s.recordedPort existing))))
  | .probe existing recorded, .ok =>
      some (s.put i (reuse a existing recorded))
  | .probe existing _, .failed _ =>
      some (s.put i
        { a with
          stage := .reacquire existing
          judged := some (existing, s.time) })
  | .reacquire existing, .ok =>
      if s.lock = none then
        some ((s.locking i).put i
          { a with stage := .reread existing, found := none })
      else
        none
  | .reacquire _, .failed e =>
      some (s.put i (a.fail (.sidecar e)))
  | .reread existing, .ok =>
      some (s.put i
        { a with
          stage :=
            if s.readPid = some existing then
              .removePid none
            else
              .resolve
          found := some (.names s.readPid) })
  | .reread _, .failed _ =>
      some (s.put i
        { a with
          stage := .resolve
          found := some .unreadable })
  -- `remove_pid_files`
  | .removePid reaping, .ok =>
      some ({ s with pidFile := none }.put i
        (a.at (.removePort reaping)))
  | .removePid reaping, .failed _ =>
      some (s.put i (a.at (.removePort reaping)))
  | .removePort none, .ok =>
      some ({ s with portFile := none }.put i (a.at .spawn))
  | .removePort none, .failed _ =>
      some (s.put i (a.at .spawn))
  | .removePort (some reaping), .ok =>
      some ({ s.unlock with portFile := none }.put i
        (a.reaped reaping))
  | .removePort (some reaping), .failed _ =>
      some (s.unlock.put i (a.reaped reaping))
  -- `spawn`
  | .spawn, .ok =>
      if a.port < minPort then
        some (s.unlock.put i
          (a.fail (.sidecar
            ("port must be >= " ++ toString minPort ++
              " (got " ++ toString a.port ++
              "), http_port is port - 1"))))
      else
        some ({ s with
            alive := Function.update s.alive s.nextPid true
            nextPid := s.nextPid + 1 }.put i
          (a.at (.writePid s.nextPid)))
  | .spawn, .failed e =>
      some (s.unlock.put i (a.fail (.sidecar e)))
  | .writePid child, .ok =>
      some ({ s with
          pidFile := some (some child)
          records := s.records ++ [(child, s.time)] }.put i
        (a.at (.writePort child)))
  | .writePid child, .failed e =>
      some (s.unlock.put i
        (a.at (.reap ⟨child, some (.sidecar e)⟩)))
  | .writePid child, .truncated e =>
      some ({ s.unlock with pidFile := some none }.put i
        (a.at (.reap ⟨child, some (.sidecar e)⟩)))
  | .writePort child, .ok =>
      some ({ s.unlock with
          portFile := some (child, a.port) }.put i
        (a.at (.health child true)))
  | .writePort child, .failed e =>
      some (s.unlock.put i
        (a.at (.reap ⟨child, some (.sidecar e)⟩)))
  | .writePort child, .truncated e =>
      some ({ s.unlock with portFile := none }.put i
        (a.at (.reap ⟨child, some (.sidecar e)⟩)))
  | .health pid ours, .ok =>
      some (s.put i (a.at (.running pid ours)))
  | .health pid true, .failed e =>
      some (s.put i
        (a.at (.reap ⟨pid, some (.sidecar e)⟩)))
  | .health _ false, .failed e =>
      some (s.put i (a.fail (.sidecar e)))
  -- `shutdown`, or the exit that a watcher waits for
  | .running pid ours, .ok =>
      match a.policy with
      | .killOnDrop =>
          some (s.put i
            (a.at (if ours then .reap ⟨pid, none⟩ else .ended)))
      | .leaveRunning =>
          if s.alive pid then
            none
          else
            some (s.put i
              { a with stage := .acquire, watching := true })
  | .running _ _, .failed e =>
      if a.policy = .leaveRunning ∧ a.watching = false then
        some (s.put i (a.at (.failed (.sidecar e))))
      else
        none
  -- `reap`
  | .reap reaping, .ok =>
      some ({ s with
          alive :=
            Function.update s.alive reaping.child false }.put i
        (a.at (.reapAcquire reaping)))
  | .reapAcquire reaping, .ok =>
      if s.lock = none then
        some ((s.locking i).put i
          { a with stage := .reapRead reaping, found := none })
      else
        none
  | .reapAcquire reaping, .failed _ =>
      some (s.put i (a.reaped reaping))
  | .reapRead reaping, .ok =>
      if s.readPid = some reaping.child then
        some (s.put i
          { a with
            stage := .removePid (some reaping)
            found := some (.names s.readPid) })
      else
        some (s.unlock.put i
          ({ a with
            found := some (.names s.readPid) }.reaped reaping))
  | .reapRead reaping, .failed _ =>
      some (s.unlock.put i (a.reaped reaping))
  | _, _ => none

end Directory

/-
  `begin` is the start of a process that is to have a
  sidecar; `fork` and `exit` are those of any other process,
  and of qdrant's; `crash` ends a process at any point.
-/
inductive Event where
| begin (i : Nat) (port : Nat) (policy : SidecarPolicy)
| act (i : Nat) (o : Outcome)
| crash (i : Nat)
| fork
| exit (pid : Nat)

namespace Directory

def next (s : Directory) : Event → Option Directory
| .begin i port policy =>
    match s.actors i with
    | none =>
        some (s.put i
          ⟨port, policy, false, .acquire, none, none⟩)
    | some _ => none
| .act i o =>
    match s.actors i with
    | some a => s.actNext i a o
    | none => none
| .crash i =>
    match s.actors i with
    | some a =>
        some ((if a.stage.locked then s.unlock else s).put i
          (a.at .ended))
    | none => none
| .fork =>
    some { s with
      alive := Function.update s.alive s.nextPid true
      nextPid := s.nextPid + 1
      time := s.time + 1 }
| .exit pid =>
    some { s with
      alive := Function.update s.alive pid false
      time := s.time + 1 }

/-
  A directory that no process uses.  The process that a PID
  file names, if it does, has been started before.
-/
structure Initial (s : Directory) : Prop where
  lock : s.lock = none
  actors : ∀ i, s.actors i = none
  named : ∀ pid, s.readPid = some pid → pid < s.nextPid
  records : s.records = []

end Directory

def machine : Machine Directory Event :=
  .ofNext Directory.Initial Directory.next

/- A computed run to a state that passes a test. -/
theorem run_of_any
    (s : Directory)
    (es : List Event)
    (test : Directory → Bool)
    (h : (es.foldlM Directory.next s).any test = true) :
    ∃ t, machine.Run s es t ∧ test t = true :=
  Machine.Run.of_any Directory.Initial s es test h

end Sidecar

end Store

end Ferrex
