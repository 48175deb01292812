import Mathlib.Logic.Function.Basic
import Ferrex.Daemon.Serve
import Ferrex.Lib.Mutex

/-
  Proxies that connect to the daemon of one key or spawn it,
  and the daemons that they spawn, from their start to their
  exit: who binds and removes the socket file, and who holds
  the spawn lock meanwhile.

  Main declarations:
    * `AttemptError`, `classifyConnectError`
    * `ProxyStage`, `DaemonStage`, `RunDir`
    * `RunDir.proxyNext`, `RunDir.daemonNext`
    * `RunDir.next`, `machine`
-/

------------------------------------------------------------
-- Errors
------------------------------------------------------------

namespace Ferrex

namespace Daemon

namespace Spawn

/- Why a daemon refuses a proxy. -/
inductive RefusalKind where
| protocol
| key
| init
| session
deriving DecidableEq

/- A failed attempt to reach the daemon. -/
structure AttemptError where
  kind : Option RefusalKind
  retryable : Bool
  childExitedEarly : Bool
  message : String
deriving DecidableEq

namespace AttemptError

/- An error after which the proxy may try again. -/
def ofRetryable (message : String) : AttemptError :=
  ⟨none, true, false, message⟩

/- An error after which it may not. -/
def fatal (message : String) : AttemptError :=
  ⟨none, false, false, message⟩

end AttemptError

/-
  `notSocket` is an error of any other kind with the number
  ENOTSOCK.
-/
inductive ErrorKind where
| notFound
| connectionRefused
| wouldBlock
| interrupted
| timedOut
| addrInUse
| notSocket
| other
deriving DecidableEq

/- An error of the system, with its text. -/
structure IoError where
  kind : ErrorKind
  text : String
deriving DecidableEq

/- What a failed connection says about the socket. -/
inductive ConnectClass where
| stale
| busy
| other
deriving DecidableEq

/- No listener, a full backlog, or anything else. -/
def classifyConnectError (e : IoError) : ConnectClass :=
  match e.kind with
  | .notFound => .stale
  | .connectionRefused => .stale
  | .wouldBlock => .busy
  | .interrupted => .busy
  | .timedOut => .busy
  | .notSocket => .stale
  | _ => .other

/- The texts of a proxy's error messages. -/
structure Paths where
  socket : String
  lockFile : String
  logFile : String
  exe : String
  envLog : Option String
  accept : String

namespace Paths

/- Where the user can look further. -/
def logHint (paths : Paths) : String :=
  match paths.envLog with
  | none => "see " ++ paths.logFile
  | some envLog =>
      "see " ++ paths.logFile ++ " and " ++ envLog

/- The lock cannot be taken. -/
def lockFailed (paths : Paths) (e : IoError) : AttemptError :=
  .ofRetryable ("lock " ++ paths.lockFile ++ ": " ++ e.text)

/- Another process has held it for too long. -/
def lockTimedOut (paths : Paths) : AttemptError :=
  .fatal
    ("timed out waiting for spawn lock " ++ paths.lockFile)

/- The permissions do not allow the connection. -/
def refused (paths : Paths) (e : IoError) : AttemptError :=
  .ofRetryable ("daemon at " ++ paths.socket ++
    " is alive but refused the connection: " ++ e.text)

/- The listener does not take connections. -/
def busy (paths : Paths) (e : IoError) : AttemptError :=
  .ofRetryable
    ("daemon at " ++ paths.socket ++ " is busy: " ++ e.text)

/- The connection fails for another reason. -/
def notConnected
    (paths : Paths)
    (e : IoError) : AttemptError :=
  .ofRetryable ("connect " ++ paths.socket ++ ": " ++ e.text)

/- The stale socket cannot be removed. -/
def notRemoved (paths : Paths) (e : IoError) : AttemptError :=
  .ofRetryable
    ("remove stale socket " ++ paths.socket ++ ": " ++ e.text)

/- The log cannot be opened. -/
def notOpened (paths : Paths) (e : IoError) : AttemptError :=
  .ofRetryable ("open " ++ paths.logFile ++ ": " ++ e.text)

/- The child cannot be started. -/
def notSpawned (paths : Paths) (e : IoError) : AttemptError :=
  .ofRetryable ("spawn " ++ paths.exe ++ ": " ++ e.text)

/- The child has ended before it listened. -/
def exitedEarly
    (paths : Paths)
    (status : String) : AttemptError where
  kind := none
  retryable := true
  childExitedEarly := true
  message :=
    "daemon exited before accepting connections (" ++
      status ++ "); " ++ paths.logHint

/- The child does not listen in time. -/
def notAccepted (paths : Paths) : AttemptError :=
  .ofRetryable ("daemon did not accept connections on " ++
    paths.socket ++ " within " ++ paths.accept ++ "; " ++
      paths.logHint)

end Paths

------------------------------------------------------------
-- State
------------------------------------------------------------

/- A stream to a daemon, or the error of the attempt. -/
abbrev Answer := Except AttemptError Nat

/-
  The next call of a proxy in `connect_or_spawn`, and from
  `waitForAccept` on in `wait_for_accept`.  `dropGuard` and
  `unlock` end it, without an answer when it is dropped.
-/
inductive ProxyStage where
| idle
| connect
| ensureRunDir
| acquireLock
| reconnect
| pidFileHeld (e : IoError)
| removeStaleSocket
| openLog
| spawn
| waitForAccept (child : Nat)
| tryWait (child : Nat)
| deadline (child : Nat)
| dropGuard (child : Nat) (answer : Option Answer)
| unlock (answer : Option Answer)
| returned (answer : Answer)

namespace ProxyStage

/- The stages of a proxy that holds the spawn lock. -/
def locked : ProxyStage → Bool
| .idle => false
| .connect => false
| .ensureRunDir => false
| .acquireLock => false
| .returned _ => false
| _ => true

/- The child of a proxy that has a guard. -/
def child : ProxyStage → Option Nat
| .waitForAccept child => some child
| .tryWait child => some child
| .deadline child => some child
| .dropGuard child _ => some child
| _ => none

/- The proxy has found the socket stale and has no child. -/
def stale : ProxyStage → Bool
| .pidFileHeld _ => true
| .removeStaleSocket => true
| .openLog => true
| .spawn => true
| _ => false

/- Without an answer the proxy starts over. -/
def ended : Option Answer → ProxyStage
| none => .idle
| some answer => .returned answer

end ProxyStage

/-
  The next call of a daemon: in `bind` up to `returning`, with
  the identity of its socket once that is known, in `serve`
  and `begin_shutdown` up to `close`, then in `finish`.  The
  socket is checked and removed in `bind` and in `finish`.
-/
inductive DaemonStage where
| unborn
| setUp
| connect
| bind
| bindRace
| listen
| stat
| writeLocked (socketId : Nat)
| returning
| serve (socketId : Nat)
| acquireLock (trigger : Trigger) (socketId : Nat)
| drainBacklog (trigger : Trigger) (socketId : Nat)
| resume (socketId : Nat)
| close (socketId : Nat) (lock : Bool)
| readPidFile (socketId : Nat)
| removePidFile (socketId : Nat)
| checkSocket (finishing : Bool) (socketId : Nat)
| removeSocket (finishing : Bool)
| releaseLock
| stop
| exited (status : String)
deriving DecidableEq

namespace DaemonStage

/- The daemon has the lock of the directory. -/
def locked : DaemonStage → Bool
| .drainBacklog _ _ => true
| .resume _ => true
| .close _ lock => lock
| .readPidFile _ => true
| .removePidFile _ => true
| .checkSocket finishing _ => finishing
| .removeSocket finishing => finishing
| .releaseLock => true
| _ => false

/- A process that has yet to listen. -/
def starting : DaemonStage → Bool
| .setUp => true
| .connect => true
| .bind => true
| .listen => true
| _ => false

/- Its listener is open. -/
def listening : DaemonStage → Bool
| .stat => true
| .writeLocked _ => true
| .returning => true
| .serve _ => true
| .acquireLock _ _ => true
| .drainBacklog _ _ => true
| .resume _ => true
| .close _ _ => true
| .checkSocket finishing _ => !finishing
| .removeSocket finishing => !finishing
| _ => false

/- A daemon that has dropped its listener and has the lock. -/
def finishing : DaemonStage → Bool
| .readPidFile _ => true
| .removePidFile _ => true
| .checkSocket finishing _ => finishing
| .removeSocket finishing => finishing
| .releaseLock => true
| _ => false

/- The daemon holds the lock on its PID file. -/
def holdsPid : DaemonStage → Bool
| .serve _ => true
| .acquireLock _ _ => true
| .drainBacklog _ _ => true
| .resume _ => true
| .close _ _ => true
| .readPidFile _ => true
| .removePidFile _ => true
| .checkSocket finishing _ => finishing
| .removeSocket finishing => finishing
| .releaseLock => true
| .stop => true
| _ => false

/- The daemon is about to write its PID file. -/
def writing : DaemonStage → Bool
| .writeLocked _ => true
| _ => false

end DaemonStage

/- Who can hold the lock. -/
inductive Party where
| proxy (p : Nat)
| daemon (d : Nat)
deriving DecidableEq

/- A file at the socket path, and who has bound it. -/
structure SocketFile where
  socketId : Nat
  boundBy : Option Nat
deriving DecidableEq

/- The PID file is of one of the daemons, or of none. -/
structure RunDir where
  lock : Option Party
  socket : Option SocketFile
  pidFile : Option (Option Nat)
  proxies : Nat → ProxyStage
  daemons : Nat → DaemonStage
  nextDaemon : Nat

/-
  How a call comes out: `created` is a `bind`, with the
  identity of the new file, `busy` the second look of an idle
  exit when connections have arrived, and `dropped` the end of
  a call of `connect_or_spawn` at an await.
-/
inductive Outcome where
| ok
| failed (e : IoError)
| expired
| dropped
| created (socketId : Nat)
| busy
| trigger (trigger : Trigger)
deriving DecidableEq

namespace RunDir

/- The directory with one proxy at another stage. -/
def atProxy
    (s : RunDir)
    (p : Nat)
    (stage : ProxyStage) : RunDir :=
  { s with proxies := Function.update s.proxies p stage }

/- The directory with one daemon at another stage. -/
def atDaemon
    (s : RunDir)
    (d : Nat)
    (stage : DaemonStage) : RunDir :=
  { s with daemons := Function.update s.daemons d stage }

/- The lock is taken. -/
def locking (s : RunDir) (party : Party) : RunDir :=
  { s with lock := some party }

/- The lock is free again. -/
def unlocking (s : RunDir) : RunDir :=
  { s with lock := none }

/- The socket's file is removed. -/
def withoutSocket (s : RunDir) : RunDir :=
  { s with socket := none }

/- The daemon that a connect reaches. -/
def listener (s : RunDir) : Option Nat :=
  match s.socket with
  | none => none
  | some file =>
      file.boundBy.filter (fun d => (s.daemons d).listening)

/-
  A connect can fail with this error: it finds the socket
  stale only when nobody listens on it.
-/
def connectFails (s : RunDir) (e : IoError) : Bool :=
  match classifyConnectError e with
  | .stale =>
      s.listener.isNone &&
        decide (e.kind = .notFound ↔ s.socket = none)
  | _ => true

/- The daemon that the PID file names holds it. -/
def pidFileHeld (s : RunDir) : Bool :=
  match s.pidFile.join with
  | none => false
  | some d => (s.daemons d).holdsPid

------------------------------------------------------------
-- Proxies
------------------------------------------------------------

/- The step of a proxy in `connect_or_spawn`. -/
def proxyNext
    (paths : Paths)
    (s : RunDir)
    (p : Nat)
    (o : Outcome) : Option RunDir :=
  match s.proxies p, o with
  | .idle, .ok => some (s.atProxy p .connect)
  | .returned _, .ok => some (s.atProxy p .connect)
  | .connect, .ok =>
      s.listener.map (fun d => s.atProxy p (.returned (.ok d)))
  | .connect, .failed e =>
      if s.connectFails e then
        some (s.atProxy p .ensureRunDir)
      else
        none
  | .connect, .dropped => some (s.atProxy p .idle)
  | .ensureRunDir, .ok => some (s.atProxy p .acquireLock)
  | .ensureRunDir, .failed e =>
      some (s.atProxy p (.returned (.error (.fatal e.text))))
  | .acquireLock, .ok =>
      if s.lock = none then
        some ((s.locking (.proxy p)).atProxy p .reconnect)
      else
        none
  | .acquireLock, .failed e =>
      some (s.atProxy p
        (.returned (.error (paths.lockFailed e))))
  | .acquireLock, .expired =>
      some (s.atProxy p (.returned (.error paths.lockTimedOut)))
  | .acquireLock, .dropped => some (s.atProxy p .idle)
  | .reconnect, .ok =>
      s.listener.map
        (fun d => s.atProxy p (.unlock (some (.ok d))))
  | .reconnect, .failed e =>
      if s.connectFails e then
        some (s.atProxy p
          (match classifyConnectError e with
          | .stale =>
              if e.kind ≠ .notFound then
                .pidFileHeld e
              else
                .removeStaleSocket
          | .busy => .unlock (some (.error (paths.busy e)))
          | .other =>
              .unlock (some (.error (paths.notConnected e)))))
      else
        none
  | .reconnect, .dropped => some (s.atProxy p (.unlock none))
  -- A PID file that cannot be opened or locked is not held.
  | .pidFileHeld e, .ok =>
      some (s.atProxy p
        (if s.pidFileHeld then
          .unlock (some (.error (paths.refused e)))
        else
          .removeStaleSocket))
  | .pidFileHeld _, .failed _ =>
      some (s.atProxy p .removeStaleSocket)
  | .removeStaleSocket, .ok =>
      some (s.withoutSocket.atProxy p .openLog)
  | .removeStaleSocket, .failed e =>
      some (s.atProxy p
        (if e.kind ≠ .notFound then
          .unlock (some (.error (paths.notRemoved e)))
        else
          .openLog))
  | .openLog, .ok => some (s.atProxy p .spawn)
  | .openLog, .failed e =>
      some (s.atProxy p
        (.unlock (some (.error (paths.notOpened e)))))
  | .spawn, .ok =>
      some (({ s with
          nextDaemon := s.nextDaemon + 1 }.atDaemon
            s.nextDaemon .setUp).atProxy p
        (.waitForAccept s.nextDaemon))
  | .spawn, .failed e =>
      some (s.atProxy p
        (.unlock (some (.error (paths.notSpawned e)))))
  -- `wait_for_accept`
  | .waitForAccept _, .ok =>
      s.listener.map
        (fun d => s.atProxy p (.unlock (some (.ok d))))
  | .waitForAccept child, .failed e =>
      if s.connectFails e then
        some (s.atProxy p (.tryWait child))
      else
        none
  | .waitForAccept child, .dropped =>
      some (s.atProxy p (.dropGuard child none))
  | .tryWait child, .ok =>
      some (s.atProxy p
        (match s.daemons child with
        | .exited status =>
            .dropGuard child
              (some (.error (paths.exitedEarly status)))
        | _ => .deadline child))
  | .tryWait child, .failed _ =>
      some (s.atProxy p (.deadline child))
  | .deadline child, .ok =>
      some (s.atProxy p (.waitForAccept child))
  | .deadline child, .expired =>
      some (s.atProxy p
        (.dropGuard child (some (.error paths.notAccepted))))
  | .deadline child, .dropped =>
      some (s.atProxy p (.dropGuard child none))
  -- The drop of the guard: kill the child, then unlock.
  | .dropGuard child answer, .ok =>
      some ((s.atDaemon child
        (match s.daemons child with
        | .exited status => .exited status
        | _ => .exited "signal: 9 (SIGKILL)")).atProxy p
          (.unlock answer))
  | .unlock answer, .ok =>
      some (s.unlocking.atProxy p (.ended answer))
  | _, _ => none

------------------------------------------------------------
-- Daemons
------------------------------------------------------------

/- The step of a daemon that is not killed. -/
def daemonNext
    (s : RunDir)
    (d : Nat)
    (o : Outcome) : Option RunDir :=
  match s.daemons d, o with
  -- `bind`
  | .setUp, .ok => some (s.atDaemon d .connect)
  | .setUp, .failed _ =>
      some (s.atDaemon d (.exited "exit status: 1"))
  | .connect, .ok =>
      s.listener.map
        (fun _ => s.atDaemon d (.exited "exit status: 0"))
  | .connect, .failed e =>
      if s.connectFails e then
        some (s.atDaemon d .bind)
      else
        none
  | .bind, .created socketId =>
      if s.socket = none then
        some ({ s with
          socket := some ⟨socketId, some d⟩ }.atDaemon d
            .listen)
      else
        none
  | .bind, .failed e =>
      some (s.atDaemon d
        (if e.kind = .addrInUse then
          .bindRace
        else
          .exited "exit status: 1"))
  | .bindRace, .ok =>
      s.listener.map
        (fun _ => s.atDaemon d (.exited "exit status: 0"))
  | .bindRace, .failed e =>
      if s.connectFails e then
        some (s.atDaemon d (.exited "exit status: 1"))
      else
        none
  | .listen, .ok => some (s.atDaemon d .stat)
  | .listen, .failed _ =>
      some (s.atDaemon d (.exited "exit status: 1"))
  | .stat, .ok =>
      s.socket.map
        (fun file => s.atDaemon d (.writeLocked file.socketId))
  | .stat, .failed _ => some (s.atDaemon d .returning)
  | .writeLocked socketId, .ok =>
      some ({ s with pidFile := some (some d) }.atDaemon d
        (.serve socketId))
  | .writeLocked socketId, .failed _ =>
      some (s.atDaemon d (.checkSocket false socketId))
  -- The listener is dropped by the return.
  | .returning, .ok =>
      some (s.atDaemon d (.exited "exit status: 1"))
  -- `serve` and `begin_shutdown`
  | .serve socketId, .trigger trigger =>
      some (s.atDaemon d (.acquireLock trigger socketId))
  | .acquireLock trigger socketId, .ok =>
      if s.lock = none then
        some ((s.locking (.daemon d)).atDaemon d
          (.drainBacklog trigger socketId))
      else
        none
  | .acquireLock trigger socketId, .expired =>
      some (s.atDaemon d
        (if trigger = .idle then
          .serve socketId
        else
          .close socketId false))
  | .acquireLock trigger socketId, .failed _ =>
      some (s.atDaemon d
        (if trigger = .idle then
          .serve socketId
        else
          .close socketId false))
  | .drainBacklog _ socketId, .ok =>
      some (s.atDaemon d (.close socketId true))
  | .drainBacklog .idle socketId, .busy =>
      some (s.atDaemon d (.resume socketId))
  | .resume socketId, .ok =>
      some (s.unlocking.atDaemon d (.serve socketId))
  -- `finish`
  | .close socketId lock, .ok =>
      some (s.atDaemon d
        (if lock then .readPidFile socketId else .stop))
  | .readPidFile socketId, .ok =>
      some (s.atDaemon d
        (if s.pidFile.join = some d then
          .removePidFile socketId
        else
          .checkSocket true socketId))
  | .readPidFile socketId, .failed _ =>
      some (s.atDaemon d (.checkSocket true socketId))
  | .removePidFile socketId, .ok =>
      some ({ s with pidFile := none }.atDaemon d
        (.checkSocket true socketId))
  | .removePidFile socketId, .failed _ =>
      some (s.atDaemon d (.checkSocket true socketId))
  -- `remove_socket_if_ours`
  | .checkSocket finishing socketId, .ok =>
      some (s.atDaemon d
        (if s.socket.map SocketFile.socketId =
            some socketId then
          .removeSocket finishing
        else if finishing then
          .releaseLock
        else
          .returning))
  | .checkSocket finishing _, .failed _ =>
      some (s.atDaemon d
        (if finishing then .releaseLock else .returning))
  | .removeSocket finishing, .ok =>
      some (s.withoutSocket.atDaemon d
        (if finishing then .releaseLock else .returning))
  | .removeSocket finishing, .failed _ =>
      some (s.atDaemon d
        (if finishing then .releaseLock else .returning))
  | .releaseLock, .ok =>
      some (s.unlocking.atDaemon d .stop)
  | .stop, .ok =>
      some (s.atDaemon d (.exited "exit status: 0"))
  | _, _ => none

end RunDir

------------------------------------------------------------
-- Steps
------------------------------------------------------------

/- A daemon can be killed at any point, by anyone. -/
inductive Event where
| proxy (p : Nat) (o : Outcome)
| daemon (d : Nat) (o : Outcome)
| kill (d : Nat) (status : String)

namespace RunDir

/-
  A proxy's step, a daemon's step, or the end of a daemon.
-/
def next (paths : Paths) (s : RunDir) : Event → Option RunDir
| .proxy p o => s.proxyNext paths p o
| .daemon d o => s.daemonNext d o
| .kill d status =>
    match s.daemons d with
    | .unborn => none
    | .exited _ => none
    | stage =>
        some ((if stage.locked then
          s.unlocking
        else
          s).atDaemon d (.exited status))

/- Nobody runs, and the files are of earlier processes. -/
structure Initial (s : RunDir) : Prop where
  lock : s.lock = none
  proxies : ∀ p, s.proxies p = .idle
  daemons : ∀ d, s.daemons d = .unborn
  socket : ∀ file, s.socket = some file → file.boundBy = none
  pidFile : s.pidFile.join = none

/- A call of `write_locked` that fails. -/
def writeFails (s : RunDir) : Event → Bool
| .daemon d (.failed _) => (s.daemons d).writing
| _ => false

end RunDir

/- The processes of one directory, in any order of steps. -/
def machine (paths : Paths) : Machine RunDir Event :=
  .ofNext RunDir.Initial (RunDir.next paths)

/- A computed run to a state that passes a test. -/
theorem run_of_any
    (paths : Paths)
    (s : RunDir)
    (es : List Event)
    (test : RunDir → Bool)
    (h : (es.foldlM (RunDir.next paths) s).any test = true) :
    ∃ t, (machine paths).Run s es t ∧ test t = true :=
  Machine.Run.of_any RunDir.Initial s es test h

end Spawn

end Daemon

end Ferrex
